import RelQuery.Operator.Group
import RelQuery.Proofs.Accumulating
import RelQuery.Proofs.Computations

namespace RelQuery

open Grouping

namespace Group

variable {s : Schema} {groupBy calls : List Expr} {key : Row → Row} {css : List (List Row)}
  {ys : List Row} {x : Row} {c : Class} {cs cs' : List Class} {ts : List Tuple}

/-- What the calls take in of some rows, one after the other. -/
def takeAll (s : Schema) (calls : List Expr) (rows : List Row) :
    Except QueryError (List Accumulator) := do
  rows.foldlM (fun as r => updateAll (.single s r) as) (← startAll calls)

/-- The class of some rows: the keys of the first of them, and what the calls take in of all. -/
def makeClass (s : Schema) (calls : List Expr) (key : Row → Row) (rows : List Row) :
    Except QueryError Class := do
  let as ← takeAll s calls rows
  .ok ⟨(keysOf key rows).keyBytes, keysOf key rows, as⟩

theorem takeAll_concat (s : Schema) (calls : List Expr) (rows : List Row) (x : Row) :
    takeAll s calls (rows ++ [x]) = takeAll s calls rows >>= updateAll (.single s x) := by
  unfold takeAll
  cases startAll calls with
  | error e => rfl
  | ok as =>
    change (rows ++ [x]).foldlM _ as = rows.foldlM _ as >>= _
    rw [List.foldlM_append]
    refine bind_congr fun bs => ?_
    rw [List.foldlM_cons]
    exact bind_pure _

theorem bytes_of_makeClass (h : makeClass s calls key ys = .ok c) :
    c.bytes = (keysOf key ys).keyBytes := by
  obtain ⟨as, -, hc⟩ := Except.bind_eq_ok.1 h
  rw [← Except.ok.inj hc]

theorem makeClass_singleton : makeClass s calls key [x] = .ok c ↔
    ∃ as, startAll calls = .ok as ∧ ∃ bs, updateAll (.single s x) as = .ok bs ∧
      ⟨(key x).keyBytes, key x, bs⟩ = c := by
  have hstart : takeAll s calls [] = startAll calls := bind_pure _
  rw [makeClass, ← List.nil_append [x], takeAll_concat, hstart, bind_assoc]
  simp only [Except.bind_eq_ok, Except.ok.injEq]
  rfl

theorem makeClass_concat (hys : ys ≠ []) : makeClass s calls key (ys ++ [x]) = .ok c ↔
    ∃ d, makeClass s calls key ys = .ok d ∧ ∃ as, updateAll (.single s x) d.accumulators = .ok as ∧
      { d with accumulators := as } = c := by
  have hkeys : keysOf key (ys ++ [x]) = keysOf key ys := by
    obtain ⟨y, zs, rfl⟩ := List.exists_cons_of_ne_nil hys
    rfl
  simp only [makeClass, hkeys, takeAll_concat, bind_assoc, Except.bind_eq_ok, Except.ok.injEq]
  constructor
  · rintro ⟨as, has, bs, hupdate, rfl⟩
    exact ⟨_, ⟨as, has, rfl⟩, bs, hupdate, rfl⟩
  · rintro ⟨_, ⟨as, has, rfl⟩, bs, hupdate, rfl⟩
    exact ⟨as, has, bs, hupdate, rfl⟩

theorem absorb_nil_eq_ok : absorb calls (.single s x) (key x) [] = .ok cs' ↔
    ∃ c, makeClass s calls key [x] = .ok c ∧ [c] = cs' := by
  simp only [makeClass_singleton, absorb, Except.bind_eq_ok, Except.ok.injEq]
  constructor
  · rintro ⟨as, has, bs, hbs, rfl⟩
    exact ⟨_, ⟨as, has, bs, hbs, rfl⟩, rfl⟩
  · rintro ⟨_, ⟨as, has, bs, hbs, rfl⟩, rfl⟩
    exact ⟨as, has, bs, hbs, rfl⟩

theorem absorb_of_bytes_eq {env : Environment} {keys : Row} (h : c.bytes = keys.keyBytes) :
    absorb calls env keys (c :: cs) = .ok cs' ↔
      ∃ as, updateAll env c.accumulators = .ok as ∧ { c with accumulators := as } :: cs = cs' := by
  simp only [absorb, if_pos h, Except.bind_eq_ok, Except.ok.injEq]

theorem absorb_of_bytes_ne {env : Environment} {keys : Row} (h : c.bytes ≠ keys.keyBytes) :
    absorb calls env keys (c :: cs) = .ok cs' ↔
      ∃ ds, absorb calls env keys cs = .ok ds ∧ c :: ds = cs' := by
  simp only [absorb, if_neg h, Except.bind_eq_ok, Except.ok.injEq]

/-- A row goes into the class with its key, and without one it begins a class. -/
theorem mapM_extend (hne : ∀ ys ∈ css, ys ≠ []) (hx : (key x).Sized)
    (hsized : ∀ ys ∈ css, ∀ y ∈ ys, (key y).Sized) :
    (extend key x css).mapM (makeClass s calls key) = .ok cs' ↔
      ∃ cs, css.mapM (makeClass s calls key) = .ok cs ∧
        absorb calls (.single s x) (key x) cs = .ok cs' := by
  induction css generalizing cs' with
  | nil =>
    simp only [extend, Except.mapM_cons_eq_ok, List.mapM_nil, pure, Except.pure, Except.ok.injEq,
      exists_eq_left', absorb_nil_eq_ok]
  | cons ys css ih =>
    obtain ⟨hys, hcss⟩ := List.forall_mem_cons.1 hne
    obtain ⟨hkeys, hsized⟩ := List.forall_mem_cons.1 hsized
    have hbytes {c : Class} (hc : makeClass s calls key ys = .ok c) :
        c.bytes = (key x).keyBytes ↔ (keysOf key ys).alike (key x) = true := by
      rw [bytes_of_makeClass hc, Row.keyBytes_eq_iff (sized_keysOf hys hkeys) hx]
    -- The class is found by its bytes, and they are the same where the keys are alike.
    rw [extend]
    split
    · next halike =>
      simp only [Except.mapM_cons_eq_ok, makeClass_concat hys]
      constructor
      · rintro ⟨_, ⟨c, hc, as, hupdate, rfl⟩, cs, hcs, rfl⟩
        exact ⟨c :: cs, ⟨c, hc, cs, hcs, rfl⟩,
          (absorb_of_bytes_eq ((hbytes hc).2 halike)).2 ⟨as, hupdate, rfl⟩⟩
      · rintro ⟨_, ⟨c, hc, cs, hcs, rfl⟩, habsorb⟩
        obtain ⟨as, hupdate, rfl⟩ := (absorb_of_bytes_eq ((hbytes hc).2 halike)).1 habsorb
        exact ⟨_, ⟨c, hc, as, hupdate, rfl⟩, cs, hcs, rfl⟩
    · next halike =>
      simp only [Except.mapM_cons_eq_ok, ih hcss hsized]
      constructor
      · rintro ⟨c, hc, ds, ⟨cs, hcs, habsorb⟩, rfl⟩
        exact ⟨c :: cs, ⟨c, hc, cs, hcs, rfl⟩,
          (absorb_of_bytes_ne (mt (hbytes hc).1 halike)).2 ⟨ds, habsorb, rfl⟩⟩
      · rintro ⟨_, ⟨c, hc, cs, hcs, rfl⟩, habsorb⟩
        obtain ⟨ds, hrest, rfl⟩ := (absorb_of_bytes_ne (mt (hbytes hc).1 halike)).1 habsorb
        exact ⟨c, hc, ds, ⟨cs, hcs, hrest⟩, rfl⟩

/-- The keys of all tuples can be evaluated; they depend on the values alone. -/
def Keyed (s : Schema) (groupBy : List Expr) (key : Row → Row) (ts : List Tuple) : Prop :=
  ∀ t ∈ ts, groupBy.mapM (fun e => Operator.evalRow s e t.values) = .ok (key t.values)

/-- A run over all rows makes the classes of their keys, and fails only if one of them cannot be
made. -/
theorem foldlM_step_iff (hkey : Keyed s groupBy key ts)
    (hsized : ∀ t ∈ ts, (key t.values).Sized) :
    ts.foldlM (step s groupBy calls) [] = .ok cs ↔
      (classes key (ts.map Tuple.values)).mapM (makeClass s calls key) = .ok cs := by
  -- The run ends with the last row, and so does `classes_concat`.
  induction ts using List.reverseRecOn generalizing cs with
  | nil =>
    rw [List.map_nil, classes]
    rfl
  | append_singleton ts t ih =>
    obtain ⟨hts, ht⟩ := List.forall_mem_append.1 hkey
    obtain ⟨hsizes, hsize⟩ := List.forall_mem_append.1 hsized
    have hclasses : ∀ ys ∈ classes key (ts.map Tuple.values), ∀ y ∈ ys, (key y).Sized := by
      intro ys hys y hy
      have hmem := (partitions_classes key _).perm.subset (List.mem_flatten.2 ⟨ys, hys, hy⟩)
      obtain ⟨u, hu, rfl⟩ := List.mem_map.1 hmem
      exact hsizes u hu
    have hstep (cs : List Class) : step s groupBy calls cs t =
        absorb calls (.single s t.values) (key t.values) cs := by
      rw [step, ht t (List.mem_singleton_self t)]
      rfl
    rw [List.map_append, List.map_singleton, classes_concat,
      mapM_extend (fun ys hys => ne_nil_of_mem_classes hys) (hsize t (List.mem_singleton_self t))
        hclasses, List.foldlM_append, Except.bind_eq_ok]
    refine exists_congr fun ds => ?_
    rw [ih hts hsizes, List.foldlM_cons, hstep]
    refine and_congr_right fun _ => ?_
    rw [show (fun cs => List.foldlM (step s groupBy calls) cs []) = pure from rfl, bind_pure]

theorem exists_keyed (h : ts.foldlM (step s groupBy calls) cs = .ok cs') :
    ∃ key, Keyed s groupBy key ts := by
  refine ⟨fun r => ((groupBy.mapM fun e => Operator.evalRow s e r).toOption).getD [], ?_⟩
  induction ts generalizing cs with
  | nil => exact fun t ht => absurd ht List.not_mem_nil
  | cons t ts ih =>
    rw [List.foldlM_cons] at h
    obtain ⟨ds, hds, hrest⟩ := Except.bind_eq_ok.1 h
    obtain ⟨keys, hkeys, -⟩ := Except.bind_eq_ok.1 hds
    refine List.forall_mem_cons.2 ⟨?_, ih hrest⟩
    dsimp only
    rw [hkeys]
    rfl

end Group

namespace Accumulator

variable {a b : Accumulator} {v : Value}

theorem call_add (h : a.add v = .ok b) : b.call = a.call := by
  cases hfn : a.call.fn with
  | count =>
    simp only [add, hfn, Except.ok.injEq] at h
    rw [← h]
  | sum | avg =>
    cases htotal : a.total <;>
      simp only [add, hfn, htotal, Except.bind_eq_ok, Except.ok.injEq] at h
    · obtain ⟨_, -, rfl⟩ := h
      rfl
    · obtain ⟨_, -, _, -, rfl⟩ := h
      rfl
  | min | max =>
    simp only [add, hfn, Except.ok.injEq] at h
    split at h <;> rw [← h]

theorem add_seen (a : Accumulator) (seen : List (List UInt8)) (v : Value) :
    { a with seen := seen }.add v = (a.add v).map fun b => { b with seen := seen } := by
  cases hfn : a.call.fn with
  | count => simp only [add, hfn, Except.map]
  | sum | avg =>
    cases htotal : a.total with
    | none =>
      simp only [add, hfn, htotal]
      cases summand _ v <;> rfl
    | some t =>
      simp only [add, hfn, htotal]
      cases summand _ v with
      | error e => rfl
      | ok w =>
        change (addTo _ t w >>= _) = (addTo _ t w >>= _).map _
        cases addTo _ t w <;> rfl
  | min | max =>
    simp only [add, hfn, Except.map]
    split <;> rfl

theorem call_foldlM_add {vs : List Value} (h : vs.foldlM add a = .ok b) : b.call = a.call := by
  induction vs generalizing a with
  | nil => rw [← Except.ok.inj h]
  | cons v vs ih =>
    obtain ⟨d, hd, hrest⟩ := Except.bind_eq_ok.1 h
    rw [ih hrest, call_add hd]

/-- The values that count are taken in one after the other, and no other. -/
theorem foldlM_take (c : AggregateCall) (vs : List Value)
    (hsized : c.distinct = true → ∀ v ∈ vs, v.Sized) : vs.foldlM take (.start c) =
      ((c.counted vs).foldlM add (.start c)).map
        fun a => { a with seen := c.seenOf (c.counted vs) } := by
  induction vs using List.reverseRecOn with
  | nil =>
    obtain ⟨fn, arg, distinct⟩ := c
    cases distinct <;> rfl
  | append_singleton vs v ih =>
    rw [List.foldlM_append, ih fun h => (List.forall_mem_append.1 (hsized h)).1]
    rcases c.take_cases vs v hsized with ⟨hsame, htake⟩ | ⟨hmore, htake⟩
    · rw [hsame]
      cases hrun : (c.counted vs).foldlM add (.start c) with
      | error e => rfl
      | ok a =>
        have ha := htake { a with seen := c.seenOf (c.counted vs) } (call_foldlM_add hrun) rfl
        change [v].foldlM take _ = .ok _
        rw [List.foldlM_cons, ha]
        rfl
    · rw [hmore, List.foldlM_append]
      cases hrun : (c.counted vs).foldlM add (.start c) with
      | error e => rfl
      | ok a =>
        have ha : { a with seen := c.seenOf (c.counted vs) }.take v =
            (a.add v).map fun b => { b with seen := c.seenOf (c.counted vs ++ [v]) } :=
          (htake { a with seen := c.seenOf (c.counted vs) } (call_foldlM_add hrun) rfl).trans
            (add_seen a _ v)
        change [v].foldlM take _ = ([v].foldlM add a).map _
        rw [List.foldlM_cons, List.foldlM_cons, ha]
        cases a.add v <;> rfl

end Accumulator

/-- Rows have the same key if and only if they have equally many values and these agree one by one:
they are of one kind and equal, where doubles have the same bits, but for the sign of a zero. A
grouping makes one class of all rows whose keys agree, in the order in which the keys occur first;
and where a call asks for distinct values, it takes in each of them once. -/
theorem Group.keys_decide :
    (∀ x y : Row, x.Sized → y.Sized →
      (x.keyBytes = y.keyBytes ↔ List.Forall₂ Value.Agrees x y)) ∧
    (∀ x y : Row, x.alike y = true ↔ List.Forall₂ Value.Agrees x y) ∧
    (∀ (s : Schema) (groupBy calls : List Expr) (ts : List Tuple) (cs : List Class),
      (∀ t ∈ ts, ∀ keys, groupBy.mapM (fun e => Operator.evalRow s e t.values) = .ok keys →
        Row.Sized keys) →
      (ts.foldlM (step s groupBy calls) [] = .ok cs ↔
        ∃ key, Keyed s groupBy key ts ∧
          Partitions key (classes key (ts.map Tuple.values)) (ts.map Tuple.values) ∧
          (classes key (ts.map Tuple.values)).mapM (makeClass s calls key) = .ok cs)) ∧
    ∀ (c : AggregateCall) (vs : List Value), (c.distinct = true → ∀ v ∈ vs, v.Sized) →
      vs.foldlM Accumulator.take (.start c) =
        ((c.counted vs).foldlM Accumulator.add (.start c)).map
          fun a => { a with seen := c.seenOf (c.counted vs) } := by
  refine ⟨fun _ _ => Row.keyBytes_eq_iff_agrees, fun _ _ => Row.alike_iff,
    fun s groupBy calls ts cs hsized => ?_, Accumulator.foldlM_take⟩
  constructor
  · intro h
    obtain ⟨key, hkey⟩ := exists_keyed h
    have hsizes : ∀ t ∈ ts, (key t.values).Sized := fun t ht => hsized t ht _ (hkey t ht)
    exact ⟨key, hkey, partitions_classes key _, (foldlM_step_iff hkey hsizes).1 h⟩
  · rintro ⟨key, hkey, -, hclasses⟩
    exact (foldlM_step_iff hkey fun t ht => hsized t ht _ (hkey t ht)).2 hclasses

/-- What is not a number is told apart by its bits, the zeros are not, and a text does not go on in
the next one: of five values, four count. -/
theorem Group.keys_decide_patterns :
    let nan : Value := .float (.ofBits 0x7ff8000000000000)
    let negativeNaN : Value := .float (.ofBits 0xfff8000000000000)
    let zero : Value := .float (.ofBits 0)
    let negativeZero : Value := .float (.ofBits 0x8000000000000000)
    Row.keyBytes [nan] ≠ Row.keyBytes [negativeNaN] ∧
    Row.keyBytes [zero] = Row.keyBytes [negativeZero] ∧
    Row.keyBytes [.text "ab", .text "c"] ≠ Row.keyBytes [.text "a", .text "bc"] ∧
    ∃ a, [nan, .text "a", zero, negativeNaN, negativeZero].foldlM Accumulator.take
      (.start ⟨.count, none, true⟩) = .ok a ∧ a.count = 4 := by
  intro nan negativeNaN zero negativeZero
  obtain ⟨hbytes, -, -, htake⟩ := keys_decide
  refine ⟨?_, ?_, ?_, ?_⟩
  · rw [ne_eq, hbytes _ _ (by decide) (by decide)]
    simp [nan, negativeNaN, Value.Agrees, Double.IsZero]
  · rw [hbytes _ _ (by decide) (by decide)]
    exact .cons (.inr ⟨.inl rfl, .inr rfl⟩) .nil
  · rw [ne_eq, hbytes _ _ (by decide) (by decide)]
    simp [Value.Agrees]
  · rw [htake _ _ (by decide)]
    exact ⟨_, rfl, rfl⟩

end RelQuery
