import RelQuery.Proofs.Classes
import RelQuery.Proofs.ValueOrder

namespace RelQuery

namespace Total

variable {s t : Total} {v : Value}

theorem sum?_concat (vs : List Value) (h : ofValue? v = some t) :
    sum? (vs ++ [v]) = some (match sum? vs with
      | none => t
      | some s => s.plus t) := by
  rw [sum?, sum?, List.filterMap_append, List.filterMap_cons_some h]
  cases vs.filterMap ofValue? with
  | nil => rfl
  | cons u us => simp

theorem sum?_ints (i : Int64) (is : List Int64) :
    sum? ((i :: is).map .int) = some (.exact ((i :: is).map Int64.toInt).sum) := by
  have hrest : ∀ n : Int, (is.map fun j => exact j.toInt).foldl plus (exact n) =
      exact (n + (is.map Int64.toInt).sum) := by
    induction is with
    | nil => exact fun n => congrArg exact (Int.add_zero n).symm
    | cons j is ih =>
      intro n
      rw [List.map_cons, List.foldl_cons, plus, ih, List.map_cons, List.sum_cons, Int.add_assoc]
  have hvalues : ((i :: is).map .int).filterMap ofValue? =
      exact i.toInt :: is.map fun j => exact j.toInt := by
    rw [List.filterMap_map]
    exact congrFun (List.filterMap_eq_map (f := fun j : Int64 => exact j.toInt)) (i :: is)
  rw [sum?, hvalues]
  dsimp only
  rw [hrest, List.map_cons, List.sum_cons]

theorem ofValue?_of_isNumeric (h : v.isNumeric = true) :
    ∃ t, ofValue? v = some t ∧ t.Fits ∧ t.toValue = v := by
  cases v with
  | int i =>
    refine ⟨.exact i.toInt, rfl, ⟨Int64.minValue_le_toInt i, Int64.toInt_le i⟩, ?_⟩
    rw [toValue, Int64.ofInt_toInt]
  | float x => exact ⟨.double x, rfl, trivial, rfl⟩
  | null | bool | text => exact absurd h Bool.false_ne_true

theorem toInt_ofInt_of_fits {n : Int} (h : (exact n).Fits) : (Int64.ofInt n).toInt = n :=
  Int64.toInt_ofInt_of_le h.1 (Int.lt_of_le_of_lt h.2 (by decide))

theorem toDouble?_toValue (h : t.Fits) : t.toValue.toDouble? = some t.toDouble := by
  cases t with
  | exact n => rw [toValue, Value.toDouble?, toInt_ofInt_of_fits h, toDouble]
  | double x => rfl

theorem addTo_toValue (f : AggregateFunction) (hs : s.Fits) (ht : t.Fits) :
    ((s.plus t).Fits ∧ Accumulator.addTo f s.toValue t.toValue = .ok (s.plus t).toValue) ∨
      (¬(s.plus t).Fits ∧ Accumulator.addTo f s.toValue t.toValue = .error (.sumOverflow f)) := by
  have hdoubles := toDouble?_toValue hs
  have hdoublet := toDouble?_toValue ht
  cases s <;> cases t
  case exact.exact m n =>
    rw [toValue, toValue, Accumulator.addTo, toInt_ofInt_of_fits hs, toInt_ofInt_of_fits ht]
    by_cases hfits : (exact (m + n)).Fits
    · have hsum : Value.ofInt? (m + n) = some (exact (m + n)).toValue := if_pos hfits
      exact .inl ⟨hfits, by rw [hsum]; rfl⟩
    · have hsum : Value.ofInt? (m + n) = none := if_neg hfits
      exact .inr ⟨hfits, by rw [hsum]⟩
  all_goals
    refine .inl ⟨trivial, ?_⟩
    simp only [toValue, Accumulator.addTo] at *
    rw [hdoubles, hdoublet]
    rfl

end Total

namespace Value

variable {atMost : Value → Value → Bool} {S : Set Value} {vs : List Value} {v m : Value}
  (htotal : ∀ a b, atMost a b || atMost b a)

include htotal

theorem first_singleton (v : Value) : first atMost [v] = some v := by
  have hself : atMost v v := by simpa using htotal v v
  simp [first, hself]

variable (htrans : ∀ a ∈ S, ∀ b ∈ S, ∀ c ∈ S, atMost a b → atMost b c → atMost a c)

include htrans

theorem first_concat_of_first (hS : ∀ w ∈ vs ++ [v], w ∈ S) (h : first atMost vs = some m) :
    first atMost (vs ++ [v]) = some (if atMost m v then m else v) := by
  obtain ⟨hall, as, bs, hvs, hbefore⟩ := List.find?_eq_some_iff_append.1 h
  rw [List.all_eq_true] at hall
  cases hmv : atMost m v with
  | true =>
    have hleast : (vs ++ [v]).all (atMost m) := by
      rw [List.all_append, List.all_eq_true.2 hall]
      simp [hmv]
    refine List.find?_eq_some_iff_append.2 ⟨hleast, as, bs ++ [v], by simp [hvs], fun a ha => ?_⟩
    have hnot := hbefore a ha
    rw [Bool.not_eq_true'] at hnot ⊢
    rw [List.all_append, hnot, Bool.false_and]
  | false =>
    have hm : m ∈ S := hS m (by simp [hvs])
    have hv : v ∈ S := hS v (by simp)
    have hvm : atMost v m := by simpa [hmv] using htotal v m
    have hleast : ∀ w ∈ vs ++ [v], atMost v w := by
      intro w hw
      rcases List.mem_append.1 hw with hvs | hlast
      · exact htrans v hv m hm w (hS w hw) hvm (hall w hvs)
      · obtain rfl := List.mem_singleton.1 hlast
        simpa using htotal w w
    -- A value before the last one that is at or before it would bring the first before it as well.
    refine List.find?_eq_some_iff_append.2 ⟨List.all_eq_true.2 hleast, vs, [], rfl, fun a ha => ?_⟩
    rw [Bool.not_eq_true', List.all_eq_false]
    refine ⟨v, by simp, fun hav => ?_⟩
    have hmv' := htrans m hm a (hS a (List.mem_append_left _ ha)) v hv (hall a ha) hav
    exact Bool.false_ne_true (hmv.symm.trans hmv')

theorem exists_first (hS : ∀ w ∈ vs, w ∈ S) (hne : vs ≠ []) : ∃ m, first atMost vs = some m := by
  induction vs using List.reverseRecOn with
  | nil => exact absurd rfl hne
  | append_singleton ws w ih =>
    by_cases hws : ws = []
    · subst hws
      exact ⟨w, first_singleton htotal w⟩
    · obtain ⟨m, hm⟩ := ih (fun u hu => hS u (List.mem_append_left _ hu)) hws
      exact ⟨_, first_concat_of_first htotal htrans hS hm⟩

/-- A value behind others comes first unless the first of these is at or before it. -/
theorem first_concat (hS : ∀ w ∈ vs ++ [v], w ∈ S) :
    first atMost (vs ++ [v]) = some (match first atMost vs with
      | none => v
      | some m => if atMost m v then m else v) := by
  by_cases hvs : vs = []
  · subst hvs
    exact first_singleton htotal v
  · obtain ⟨m, hm⟩ := exists_first htotal htrans (fun u hu => hS u (List.mem_append_left _ hu)) hvs
    rw [first_concat_of_first htotal htrans hS hm, hm]

end Value

namespace Accumulator

theorem displaces_min (v m : Value) : displaces .min v (some m) = !m.atMost v := by
  rw [displaces, if_pos rfl, Value.atMost, Value.order_swap]
  cases m.order v <;> rfl

theorem displaces_max (v m : Value) : displaces .max v (some m) = !v.atMost m := by
  rw [displaces, if_neg (by decide), Value.atMost]
  cases v.order m <;> rfl

theorem displaced_first {f : AggregateFunction} {atMost : Value → Value → Bool} {S : Set Value}
    {vs : List Value} {v : Value} (hdisplaces : ∀ v m, displaces f v (some m) = !atMost m v)
    (htotal : ∀ a b, atMost a b || atMost b a)
    (htrans : ∀ a ∈ S, ∀ b ∈ S, ∀ c ∈ S, atMost a b → atMost b c → atMost a c)
    (hS : ∀ w ∈ vs ++ [v], w ∈ S) :
    (if displaces f v (Value.first atMost vs) then some v else Value.first atMost vs) =
      Value.first atMost (vs ++ [v]) := by
  rw [Value.first_concat htotal htrans hS]
  cases Value.first atMost vs with
  | none => rfl
  | some m =>
    rw [hdisplaces]
    cases hmv : atMost m v <;> simp [hmv]

end Accumulator

namespace AggregateCall

variable {c : AggregateCall} {vs : List Value} {v : Value} {n : Nat} {seen : List (List UInt8)}

/-- Sums are taken of numbers, and extremes of values that are in a transitive order. -/
structure Admits (c : AggregateCall) (vs : List Value) : Prop where
  numeric : c.fn = .sum ∨ c.fn = .avg → ∀ v ∈ vs, v.isNumeric = true
  ordered : c.fn = .min ∨ c.fn = .max → Value.TransitiveOn {v | v ∈ vs}

/-- No sum of the values is an integer that no value can hold. -/
def Holds (c : AggregateCall) (vs : List Value) : Prop := ∀ t, c.total? vs = some t → t.Fits

def holding (c : AggregateCall) (seen : List (List UInt8)) (n : Nat) (vs : List Value) :
    Accumulator :=
  ⟨c, seen, n, (c.total? vs).map Total.toValue, c.extreme? vs⟩

theorem total?_of_sum (h : c.fn = .sum ∨ c.fn = .avg) : c.total? vs = Total.sum? vs := by
  rcases h with h | h <;> rw [total?, h]

theorem extreme?_of_sum (h : c.fn = .sum ∨ c.fn = .avg) : c.extreme? vs = none := by
  rcases h with h | h <;> rw [extreme?, h]

theorem total?_of_extreme (h : c.fn = .min ∨ c.fn = .max) : c.total? vs = none := by
  rcases h with h | h <;> rw [total?, h]

theorem extreme?_concat (h : c.fn = .min ∨ c.fn = .max)
    (hordered : Value.TransitiveOn {w | w ∈ vs ++ [v]}) :
    c.extreme? (vs ++ [v]) =
      if Accumulator.displaces c.fn v (c.extreme? vs) then some v else c.extreme? vs := by
  rcases h with h | h <;> rw [extreme?, extreme?, h]
  · exact (Accumulator.displaced_first Accumulator.displaces_min Value.atMost_total hordered
      fun _ hw => hw).symm
  · exact (Accumulator.displaced_first Accumulator.displaces_max
      (fun a b => Value.atMost_total b a)
      (fun a ha b hb d hd hab hbd => hordered d hd b hb a ha hbd hab) fun _ hw => hw).symm

theorem add_of_sum {a : Accumulator} (h : a.call.fn = .sum ∨ a.call.fn = .avg)
    (hv : v.isNumeric = true) :
    a.add v =
      (match a.total with
        | none => (.ok v : Except EvalError Value)
        | some t => Accumulator.addTo a.call.fn t v).map
        fun t => { a with count := a.count + 1, total := some t } := by
  have hsummand : ∀ f, Accumulator.summand f v = .ok v := fun f => if_pos hv
  cases htotal : a.total with
  | none => rcases h with h | h <;> simp only [Accumulator.add, h, hsummand, htotal] <;> rfl
  | some t =>
    cases hsum : Accumulator.addTo a.call.fn t v <;> rcases h with h | h <;> rw [h] at hsum <;>
      simp only [Accumulator.add, h, hsummand, htotal, hsum, bind, Except.bind, Except.map]

theorem add_of_extreme {a : Accumulator} (h : a.call.fn = .min ∨ a.call.fn = .max) :
    a.add v = .ok
      { a with
        count := a.count + 1
        extreme := if Accumulator.displaces a.call.fn v a.extreme then some v else a.extreme } := by
  obtain ⟨⟨fn, arg, distinct⟩, seen, n, total, extreme⟩ := a
  rcases h with h | h <;> obtain rfl : fn = _ := h
  all_goals
    simp only [Accumulator.add]
    split <;> rfl

theorem add_holding (hadmits : c.Admits (vs ++ [v])) (hholds : c.Holds vs) :
    (c.Holds (vs ++ [v]) ∧
        (c.holding seen n vs).add v = .ok (c.holding seen (n + 1) (vs ++ [v]))) ∨
      (¬c.Holds (vs ++ [v]) ∧ (c.holding seen n vs).add v = .error (.sumOverflow c.fn)) := by
  have hfn : c.fn = .count ∨ (c.fn = .sum ∨ c.fn = .avg) ∨ (c.fn = .min ∨ c.fn = .max) := by
    cases c.fn <;> simp
  obtain hcount | hsum | hextreme := hfn
  · have htotal : ∀ ws, c.total? ws = none := fun ws => by rw [total?, hcount]
    have hnone : ∀ ws, c.extreme? ws = none := fun ws => by rw [extreme?, hcount]
    refine .inl ⟨fun t ht => by simp [htotal] at ht, ?_⟩
    simp only [holding, Accumulator.add, hcount, htotal, hnone]
  · obtain ⟨t, ht, hfits, rfl⟩ :=
      Total.ofValue?_of_isNumeric (hadmits.numeric hsum v (by simp))
    have hnext := Total.sum?_concat vs ht
    rw [add_of_sum hsum (hadmits.numeric hsum _ (by simp))]
    simp only [Holds, holding, total?_of_sum hsum, extreme?_of_sum hsum, hnext] at hholds ⊢
    cases hbefore : Total.sum? vs with
    | none => exact .inl ⟨fun u hu => Option.some.inj hu ▸ hfits, rfl⟩
    | some s =>
      simp only [Option.map_some]
      rcases Total.addTo_toValue c.fn (hholds s hbefore) hfits with ⟨hplus, hadd⟩ | ⟨hplus, hadd⟩
      · exact .inl ⟨fun u hu => Option.some.inj hu ▸ hplus, by rw [hadd]; rfl⟩
      · exact .inr ⟨fun h => hplus (h _ rfl), by rw [hadd]; rfl⟩
  · refine .inl ⟨fun t ht => by simp [total?_of_extreme hextreme] at ht, ?_⟩
    rw [add_of_extreme hextreme]
    simp only [holding, total?_of_extreme hextreme,
      extreme?_concat hextreme (hadmits.ordered hextreme)]

theorem counted_concat_null (h : v.isNull = true) : c.counted (vs ++ [v]) = c.counted vs := by
  simp only [counted, List.filter_append, List.filter_cons, h, Bool.not_true, Bool.false_eq_true,
    if_false, List.filter_nil, List.append_nil]

theorem mem_counted (h : v ∈ c.counted vs) : v ∈ vs ∧ v.isNull = false := by
  have hfilter : v ∈ vs.filter fun w => !w.isNull := by
    rw [counted] at h
    split at h
    · exact (mem_of_mem_loop h).resolve_right List.not_mem_nil
    · exact h
  simpa using List.mem_filter.1 hfilter

/-- The keys of the values, which tell whether one is like them. -/
def seenOf (c : AggregateCall) (vs : List Value) : List (List UInt8) :=
  if c.distinct then (vs.map Value.keyBytes).reverse else []

/-- A value like an earlier one, where only first occurrences count. -/
def repeats (c : AggregateCall) (vs : List Value) (v : Value) : Bool :=
  c.distinct && vs.any v.alike

theorem counted_concat (h : v.isNull = false) :
    c.counted (vs ++ [v]) =
      if c.repeats (c.counted vs) v then c.counted vs else c.counted vs ++ [v] := by
  have hfilter : (vs ++ [v]).filter (fun w => !w.isNull) =
      vs.filter (fun w => !w.isNull) ++ [v] := by
    simp [List.filter_append, h]
  rw [counted, counted, repeats, hfilter]
  cases hdistinct : c.distinct with
  | false => rfl
  | true => exact eraseDupsBy_concat _ v

theorem contains_seenOf (h : c.distinct = true) (hsized : ∀ w ∈ vs ++ [v], w.Sized) :
    (c.seenOf vs).contains v.keyBytes = vs.any v.alike := by
  obtain ⟨hvs, hv⟩ := List.forall_mem_append.1 hsized
  rw [seenOf, if_pos h, Bool.eq_iff_iff, List.contains_iff_mem, List.mem_reverse, List.mem_map,
    List.any_eq_true]
  refine exists_congr fun w => and_congr_right fun hw => ?_
  rw [eq_comm, Value.keyBytes_eq_iff (List.forall_mem_singleton.1 hv) (hvs w hw)]

section Take

variable {a : Accumulator} {ws : List Value}
  (hsized : c.distinct = true → ∀ w ∈ ws ++ [v], w.Sized)

include hsized

theorem take_of_repeats (hcall : a.call = c) (hseen : a.seen = c.seenOf ws)
    (h : c.repeats ws v = true) : a.take v = .ok a := by
  obtain ⟨hdistinct, hany⟩ := Bool.and_eq_true_iff.1 h
  have hcontains : a.seen.contains v.keyBytes = true := by
    rw [hseen, contains_seenOf hdistinct (hsized hdistinct), hany]
  rw [Accumulator.take, hcall, if_pos hdistinct, if_pos hcontains, ite_self]

theorem take_of_new (hcall : a.call = c) (hseen : a.seen = c.seenOf ws) (hnull : v.isNull = false)
    (h : c.repeats ws v = false) : a.take v = { a with seen := c.seenOf (ws ++ [v]) }.add v := by
  subst hcall
  have hnot : ¬v.isNull = true := by simp [hnull]
  rw [Accumulator.take, if_neg hnot]
  by_cases hdistinct : a.call.distinct = true
  · have hcontains : ¬a.seen.contains v.keyBytes = true := by
      have hany : ws.any v.alike = false := by simpa [repeats, hdistinct] using h
      rw [hseen, contains_seenOf hdistinct (hsized hdistinct), hany]
      exact Bool.false_ne_true
    rw [if_pos hdistinct, if_neg hcontains]
    simp [seenOf, hdistinct, hseen]
  · rw [if_neg hdistinct]
    have hnone : ∀ us, a.call.seenOf us = [] := fun us => if_neg hdistinct
    rw [hnone, ← hnone ws, ← hseen]

end Take

/-- A value that does not count is passed over, and one that counts is taken in. -/
theorem take_cases (c : AggregateCall) (vs : List Value) (v : Value)
    (hsized : c.distinct = true → ∀ w ∈ vs ++ [v], w.Sized) :
    (c.counted (vs ++ [v]) = c.counted vs ∧
        ∀ a : Accumulator, a.call = c → a.seen = c.seenOf (c.counted vs) → a.take v = .ok a) ∨
      (c.counted (vs ++ [v]) = c.counted vs ++ [v] ∧
        ∀ a : Accumulator, a.call = c → a.seen = c.seenOf (c.counted vs) →
          a.take v = { a with seen := c.seenOf (c.counted vs ++ [v]) }.add v) := by
  have hcounted : c.distinct = true → ∀ w ∈ c.counted vs ++ [v], w.Sized := fun h =>
    List.forall_mem_append.2 ((List.forall_mem_append.1 (hsized h)).imp_left
      fun hvs w hw => hvs w (mem_counted hw).1)
  cases hnull : v.isNull with
  | true => exact .inl ⟨counted_concat_null hnull, fun a _ _ => if_pos hnull⟩
  | false =>
    have hmore : c.counted (vs ++ [v]) = _ := counted_concat hnull
    cases hrepeats : c.repeats (c.counted vs) v with
    | true =>
      rw [if_pos hrepeats] at hmore
      exact .inl ⟨hmore, fun a hcall hseen => take_of_repeats hcounted hcall hseen hrepeats⟩
    | false =>
      rw [if_neg (by simp [hrepeats])] at hmore
      exact .inr ⟨hmore, fun a hcall hseen => take_of_new hcounted hcall hseen hnull hrepeats⟩

def taken (c : AggregateCall) (vs : List Value) : Accumulator :=
  c.holding (c.seenOf (c.counted vs)) (c.counted vs).length (c.counted vs)

theorem take_taken (hsized : c.distinct = true → ∀ w ∈ vs ++ [v], w.Sized)
    (hadmits : c.Admits (c.counted (vs ++ [v]))) (hholds : c.Holds (c.counted vs)) :
    (c.Holds (c.counted (vs ++ [v])) ∧ (c.taken vs).take v = .ok (c.taken (vs ++ [v]))) ∨
      (¬c.Holds (c.counted (vs ++ [v])) ∧ (c.taken vs).take v = .error (.sumOverflow c.fn)) := by
  rcases c.take_cases vs v hsized with ⟨hsame, htake⟩ | ⟨hmore, htake⟩
  · rw [htake (c.taken vs) rfl rfl, taken, taken, hsame]
    exact .inl ⟨hholds, rfl⟩
  · rw [hmore] at hadmits
    rw [htake (c.taken vs) rfl rfl, taken, taken, hmore, List.length_append]
    exact add_holding hadmits hholds

section Rows

variable {s : Schema} {arg : Expr → Row → Value} {rows xs : List Row} {x : Row}

def after (c : AggregateCall) (arg : Expr → Row → Value) (rows : List Row) : Accumulator :=
  c.holding (c.seenOf (c.values arg rows)) (c.size arg rows) (c.values arg rows)

/-- The argument of a call has these values over some rows; they are numbers or NULL for a sum, in a
transitive order for an extreme, and of a size that keys have room for under `DISTINCT`. -/
structure Computes (c : AggregateCall) (s : Schema) (arg : Expr → Row → Value) (xs : List Row) :
    Prop where
  evaluated : ∀ e, c.arg = some e → ∀ x ∈ xs, e.eval (.single s x) = .ok (arg e x)
  numeric : c.fn = .sum ∨ c.fn = .avg → ∀ e, c.arg = some e → ∀ x ∈ xs,
    arg e x = .null ∨ (arg e x).isNumeric = true
  ordered : c.fn = .min ∨ c.fn = .max → ∀ e, c.arg = some e →
    Value.TransitiveOn {v | ∃ x ∈ xs, arg e x = v}
  sized : c.distinct = true → ∀ e, c.arg = some e → ∀ x ∈ xs, (arg e x).Sized

theorem after_nil : c.after arg [] = .start c := by
  obtain ⟨fn, e, distinct⟩ := c
  cases fn <;> cases e <;> cases distinct <;> rfl

theorem Computes.admits (h : c.Computes s arg xs) (hrows : ∀ x ∈ rows, x ∈ xs) :
    c.Admits (c.values arg rows) := by
  cases harg : c.arg with
  | none =>
    rw [values, harg]
    exact ⟨fun _ _ hv => absurd hv List.not_mem_nil, fun _ _ hv => absurd hv List.not_mem_nil⟩
  | some e =>
    have hmem : ∀ v ∈ c.values arg rows, (∃ x ∈ xs, arg e x = v) ∧ v.isNull = false := by
      intro v hv
      rw [values, harg] at hv
      obtain ⟨hmap, hnull⟩ := mem_counted hv
      obtain ⟨x, hx, hval⟩ := List.mem_map.1 hmap
      exact ⟨⟨x, hrows x hx, hval⟩, hnull⟩
    refine ⟨fun hsum v hv => ?_, fun hextreme => (h.ordered hextreme e harg).mono fun v hv =>
      (hmem v hv).1⟩
    obtain ⟨⟨x, hx, rfl⟩, hnull⟩ := hmem v hv
    refine (h.numeric hsum e harg x hx).resolve_left fun hval => ?_
    rw [hval] at hnull
    exact Bool.noConfusion hnull

theorem update_holds (h : c.Computes s arg xs) (hrows : ∀ y ∈ rows ++ [x], y ∈ xs)
    (hholds : c.Holds (c.values arg rows)) :
    (c.Holds (c.values arg (rows ++ [x])) ∧
        (c.after arg rows).update (.single s x) = .ok (c.after arg (rows ++ [x]))) ∨
      (¬c.Holds (c.values arg (rows ++ [x])) ∧
        (c.after arg rows).update (.single s x) = .error (.sumOverflow c.fn)) := by
  have hadmits := h.admits hrows
  cases harg : c.arg with
  | none =>
    have hcall : (c.after arg rows).call.arg = none := harg
    simp only [values, harg] at hholds ⊢
    refine .inl ⟨hholds, ?_⟩
    rw [Accumulator.update, hcall]
    simp [after, values, size, holding, harg]
  | some e =>
    have hcall : (c.after arg rows).call.arg = some e := harg
    have heval : e.eval (.single s x) = .ok (arg e x) := h.evaluated e harg x (hrows x (by simp))
    have hafter : ∀ ys, c.after arg ys = c.taken (ys.map (arg e)) := fun ys => by
      simp [after, taken, values, size, harg]
    have hvalues : ∀ ys, c.values arg ys = c.counted (ys.map (arg e)) := fun ys => by
      rw [values, harg]
    rw [Accumulator.update, hcall]
    have hsized : c.distinct = true → ∀ v ∈ (rows ++ [x]).map (arg e), v.Sized := by
      intro hdistinct v hv
      obtain ⟨y, hy, rfl⟩ := List.mem_map.1 hv
      exact h.sized hdistinct e harg y (hrows y hy)
    simp only [heval, hafter, hvalues, List.map_append, List.map_cons, List.map_nil]
      at hadmits hholds hsized ⊢
    exact take_taken hsized hadmits hholds

theorem size_pos {t : Total} (h : c.total? (c.values arg rows) = some t) : 0 < c.size arg rows := by
  have hne : c.values arg rows ≠ [] := by
    intro hnil
    have hnone : c.total? [] = none := by
      rw [total?]
      split <;> rfl
    rw [hnil, hnone] at h
    exact Option.some_ne_none t h.symm
  cases harg : c.arg with
  | none => exact absurd (by rw [values, harg]) hne
  | some e =>
    rw [size, harg]
    exact List.length_pos_iff.2 hne

instance (t : Total) : Decidable t.Fits := by
  cases t <;> unfold Total.Fits <;> infer_instance

instance : Decidable (c.Exceeds arg rows) :=
  match h : c.total? (c.values arg rows) with
  | none => .isFalse fun ⟨t, ht, _⟩ => Option.some_ne_none t (ht.symm.trans h)
  | some t =>
    decidable_of_iff (¬t.Fits)
      ⟨fun hfits => ⟨t, h, hfits⟩, fun ⟨_, hu, hfits⟩ => Option.some.inj (h.symm.trans hu) ▸ hfits⟩

instance : Decidable (c.Overflows arg rows) :=
  decidable_of_iff (∃ zs ∈ rows.inits, c.Exceeds arg zs) <| by
    simp only [List.mem_inits, Overflows]

theorem holds_of_not_overflows (h : ¬c.Overflows arg rows) : c.Holds (c.values arg rows) :=
  fun t ht => by_contra fun hfits => h ⟨rows, List.prefix_rfl, t, ht, hfits⟩

theorem overflows_of_not_holds (h : ¬c.Holds (c.values arg rows)) : c.Overflows arg rows := by
  simp only [Holds, not_forall] at h
  obtain ⟨t, ht, hfits⟩ := h
  exact ⟨rows, List.prefix_rfl, t, ht, hfits⟩

theorem Overflows.of_prefix {ys : List Row} (h : c.Overflows arg rows) (hpre : rows <+: ys) :
    c.Overflows arg ys := by
  obtain ⟨zs, hzs, hexceeds⟩ := h
  exact ⟨zs, hzs.trans hpre, hexceeds⟩

theorem not_overflows_nil : ¬c.Overflows arg [] := by
  rintro ⟨zs, hzs, t, ht, -⟩
  obtain rfl := List.prefix_nil.1 hzs
  have hsize : 0 < c.size arg [] := size_pos ht
  have hzero : c.size arg [] = 0 := by
    obtain ⟨fn, e, distinct⟩ := c
    cases e <;> cases distinct <;> rfl
  omega

theorem update_after (h : c.Computes s arg xs) (hrows : ∀ y ∈ rows ++ [x], y ∈ xs)
    (hbefore : ¬c.Overflows arg rows) :
    (¬c.Overflows arg (rows ++ [x]) ∧
        (c.after arg rows).update (.single s x) = .ok (c.after arg (rows ++ [x]))) ∨
      (c.Overflows arg (rows ++ [x]) ∧
        (c.after arg rows).update (.single s x) = .error (.sumOverflow c.fn)) := by
  rcases update_holds h hrows (holds_of_not_overflows hbefore) with
    ⟨hholds, hupdate⟩ | ⟨hnot, hupdate⟩
  · refine .inl ⟨?_, hupdate⟩
    rintro ⟨zs, hzs, t, ht, hfits⟩
    rcases List.prefix_concat_iff.1 hzs with rfl | hzs
    · exact hfits (hholds t ht)
    · exact hbefore ⟨zs, hzs, t, ht, hfits⟩
  · exact .inr ⟨overflows_of_not_holds hnot, hupdate⟩

theorem finish_after (hholds : c.Holds (c.values arg rows)) :
    (c.after arg rows).finish = c.result arg rows := by
  have hcall : (c.after arg rows).call = c := rfl
  rw [Accumulator.finish, result, hcall]
  cases c.fn with
  | count | sum | min | max => rfl
  | avg =>
    have htotal : (c.after arg rows).total = (c.total? (c.values arg rows)).map Total.toValue := rfl
    have hcount : (c.after arg rows).count = c.size arg rows := rfl
    cases hsum : c.total? (c.values arg rows) with
    | none =>
      rw [htotal, hsum]
      rfl
    | some t =>
      rw [htotal, hsum, Option.map_some, Option.bind_some, Total.toDouble?_toValue (hholds t hsum),
        hcount]
      exact if_pos (size_pos hsum)

end Rows

end AggregateCall

end RelQuery
