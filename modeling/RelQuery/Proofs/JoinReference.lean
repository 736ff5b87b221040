import RelQuery.Proofs.Computations
import RelQuery.Proofs.JoinMachine
import RelQuery.Proofs.Leaves
import RelQuery.Proofs.Preparing

namespace RelQuery

section Reference

variable (test : Row → Row → Bool) (glue : Row → Row → Row) (leftWidth rightWidth : Nat)

/-- The rows of a join of two lists of rows: for the pairs of rows that pass the test, the glued
row, and for the rows that are kept without a partner, the row glued to NULLs. -/
def JoinKind.reference (kind : JoinKind) (L R : List Row) : List Row :=
  match kind with
  | inner | cross => L.flatMap fun l => (R.filter (test l)).map (glue l)
  | leftOuter => L.flatMap fun l =>
      if R.any (test l) then (R.filter (test l)).map (glue l)
      else [glue l (Tuple.nulls rightWidth)]
  | rightOuter => R.flatMap fun r =>
      if L.any (test · r) then (L.filter (test · r)).map (glue · r)
      else [glue (Tuple.nulls leftWidth) r]
  | fullOuter =>
    (L.flatMap fun l =>
      if R.any (test l) then (R.filter (test l)).map (glue l)
      else [glue l (Tuple.nulls rightWidth)]) ++
    (R.filter fun r => !L.any (test · r)).map (glue (Tuple.nulls leftWidth))
  | semi => L.filter fun l => R.any (test l)
  | anti => L.filter fun l => !R.any (test l)

end Reference

namespace Join

section Flags

def flagged (flags : List Bool) (n : Nat) : Bool := (flags[n]?).getD false

theorem flagged_extendFlags (flags : List Bool) (n i : Nat) :
    flagged (extendFlags flags n) i = flagged flags i := by
  unfold flagged extendFlags
  by_cases h : i < flags.length
  · rw [List.getElem?_append_left h]
  · rw [List.getElem?_append_right (by omega), List.getElem?_replicate,
      List.getElem?_eq_none (by omega)]
    split <;> rfl

theorem flagged_setFlag {flags : List Bool} {n : Nat} (h : n < flags.length) (i : Nat) :
    flagged (setFlag flags n) i = (flagged flags i || decide (i = n)) := by
  unfold flagged setFlag
  rw [List.getElem?_set]
  by_cases hi : n = i
  · subst hi
    simp [h]
  · simp [hi, Ne.symm hi]

theorem lt_length_extendFlags (flags : List Bool) (n : Nat) :
    n < (extendFlags flags (n + 1)).length := by
  unfold extendFlags
  rw [List.length_append, List.length_replicate]
  omega

/-- The flags, with room for one more right row in a full outer join. -/
def grown (kind : JoinKind) (flags : List Bool) (n : Nat) : List Bool :=
  if kind = JoinKind.fullOuter then extendFlags flags (n + 1) else flags

/-- The flags after a left row has been compared with right rows from a number on. -/
def flagsAfter (kind : JoinKind) (hit : Row → Bool) : List Bool → Nat → List Row → List Bool
  | flags, _, [] => flags
  | flags, n, r :: rs =>
    let flags := grown kind flags n
    flagsAfter kind hit (if hit r then setFlag flags n else flags) (n + 1) rs

/-- In a full outer join, a right row is flagged when it was or when it is a partner. -/
theorem flagged_flagsAfter (hit : Row → Bool) (flags : List Bool) (n i : Nat) (R : List Row) :
    flagged (flagsAfter .fullOuter hit flags n R) i =
      (flagged flags i || (decide (n ≤ i) && (R[i - n]?).any hit)) := by
  -- The row of number `n` is the head, the rows behind it are the tail counted from `n + 1`.
  induction R generalizing flags n with
  | nil => simp [flagsAfter]
  | cons r rs ih =>
    rw [flagsAfter, ih, grown, if_pos rfl]
    have hstep : flagged (if hit r then setFlag (extendFlags flags (n + 1)) n
        else extendFlags flags (n + 1)) i = (flagged flags i || (decide (i = n) && hit r)) := by
      split
      · next h =>
        rw [flagged_setFlag (lt_length_extendFlags flags n), flagged_extendFlags, h, Bool.and_true]
      · next h =>
        rw [flagged_extendFlags]
        simp [h]
    rw [hstep, Bool.or_assoc]
    congr 1
    rcases Nat.lt_trichotomy i n with h | rfl | h
    · simp [show ¬ i = n by omega, show ¬ n + 1 ≤ i by omega, show ¬ n ≤ i by omega]
    · simp
    · obtain ⟨k, rfl⟩ : ∃ k, i = n + 1 + k := ⟨i - (n + 1), by omega⟩
      simp [show ¬ n + 1 + k = n by omega, show n + 1 + k - n = k + 1 by omega,
        show n ≤ n + 1 + k by omega]

end Flags

section Row

variable {kind : JoinKind} {predicate : Option Expr} {left right : Operator} {db : Storage}
  {ls rs : Schema} {p : Progress} {l : left.State} {r r₀ : right.State} {t : Tuple}
  {hit : Row → Bool} {matched rightEmpty : Bool} {n : Nat} {flags : List Bool} {R rest : List Row}

/-- Taking the next left row leads to these rows, and then to the end. -/
def Advances (kind : JoinKind) (predicate : Option Expr) (left right : Operator) (db : Storage)
    (ls rs : Schema) (p : Progress) (l : left.State) (r : right.State) (rows : List Row) : Prop :=
  ∃ p' l' r', advance kind (inputs left right db) p l r = (.ok .again, p', l', r') ∧
    Emits (move kind predicate left right db ls rs) p' l' r' rows (.ok ())

/-- The state of a machine that compares a left row with right rows. -/
def scanning (matched : Bool) (t : Tuple) (rightEmpty : Bool) (n : Nat) (flags : List Bool) :
    Progress :=
  ⟨.scanning matched, some t, false, rightEmpty, n, flags⟩

theorem emits_settled (h : Advances kind predicate left right db ls rs (settle p) l r rest) :
    Emits (move kind predicate left right db ls rs) (settle p) l r rest (.ok ()) := by
  obtain ⟨p', l', r', hadvance, hrest⟩ := h
  exact .again hadvance hrest

def unpaired (kind : JoinKind) (rightWidth : Nat) (t : Tuple) : List Row :=
  if kind.preservesLeft then [t.values ++ Tuple.nulls rightWidth]
  else if kind = .anti then [t.values] else []

theorem unpaired_of_needsRight (h : kind.needsRight = true) (rightWidth : Nat) (t : Tuple) :
    unpaired kind rightWidth t = [] := by
  cases kind <;> simp [JoinKind.needsRight] at h <;> rfl

theorem emits_exhausted (h : p.phase = .exhausted) :
    Emits (move kind predicate left right db ls rs) p l r [] (.ok ()) := by
  have hmove : move kind predicate left right db ls rs p l r = (.ok .finished, p, l, r) := by
    simp only [move, step, h]
  exact .finished hmove

/-- At the end of the right input a left row without a partner is given as it is or padded, if at
all. Where no right row was seen, some joins are at their end. -/
theorem emits_end (hr : right.next db r = (.ok none, r₀))
    (hempty : rightEmpty = true → kind.needsRight = true → rest = [])
    (hnext : ∀ p, p.matchedRight = flags →
      Advances kind predicate left right db ls rs p l r₀ rest) :
    Emits (move kind predicate left right db ls rs) (scanning matched t rightEmpty n flags) l r
      ((if matched then [] else unpaired kind rs.width t) ++ rest) (.ok ()) := by
  have hmove : move kind predicate left right db ls rs (scanning matched t rightEmpty n flags) l r =
      endOfRight kind (inputs left right db) matched (scanning matched t rightEmpty n flags) l
        r₀ := by
    simp only [move, step, scanning, inputs, hr, Bool.false_eq_true, if_false]
  unfold endOfRight at hmove
  split at hmove
  case isTrue h =>
    obtain ⟨hre, hneeds⟩ := Bool.and_eq_true_iff.1 h
    rw [hempty hre hneeds, unpaired_of_needsRight hneeds, ite_self]
    exact .again hmove (emits_exhausted rfl)
  split at hmove
  case isTrue h =>
    obtain ⟨hmatched, hleft⟩ := Bool.and_eq_true_iff.1 h
    have hm : matched = false := by simpa using hmatched
    subst hm
    rw [unpaired, if_pos hleft]
    have hpad := emits_settled (hnext (settle ⟨.padding, some t, false, rightEmpty, n, flags⟩) rfl)
    exact .again hmove (.row rfl hpad)
  next hpad =>
  split at hmove
  case isTrue h =>
    obtain ⟨hmatched, hanti⟩ := Bool.and_eq_true_iff.1 h
    have hm : matched = false := by simpa using hmatched
    have hk : kind = .anti := by simpa using hanti
    subst hm hk
    have hgive :=
      emits_settled (hnext (settle ⟨.unmatched, some t, false, rightEmpty, n, flags⟩) rfl)
    exact .again hmove (.row rfl hgive)
  next hgive =>
  -- The row was joined already, or it is of a kind that gives nothing without a partner.
  have hnone : (if matched then [] else unpaired kind rs.width t) = [] := by
    cases matched with
    | true => rfl
    | false => simp_all [unpaired]
  obtain ⟨p', l', r', hadvance, hrest⟩ := hnext (scanning matched t rightEmpty n flags) rfl
  rw [hnone]
  exact .again (hmove.trans hadvance) hrest

theorem move_miss {u : Tuple} {r' : right.State} (hr : right.next db r = (.ok (some u), r'))
    (ht : matches? predicate ls rs t u = .ok false) :
    move kind predicate left right db ls rs (scanning matched t rightEmpty n flags) l r =
      (.ok .again, scanning matched t false (n + 1) (grown kind flags n), l, r') := by
  simp only [move, step, scanning, inputs, hr, meet, ht, grown, Bool.false_eq_true, if_false]

theorem move_hit {u : Tuple} {r' : right.State} (hr : right.next db r = (.ok (some u), r'))
    (ht : matches? predicate ls rs t u = .ok true) :
    move kind predicate left right db ls rs (scanning matched t rightEmpty n flags) l r =
      ((found kind (scanning matched t false (n + 1) (grown kind flags n)) n t u).1,
        (found kind (scanning matched t false (n + 1) (grown kind flags n)) n t u).2, l, r') := by
  simp only [move, step, scanning, inputs, hr, meet, ht, grown, Bool.false_eq_true, if_false]

theorem emits_pairs (hkind : kind.leftColumnsOnly = false) (hright : kind ≠ .rightOuter)
    (ht : ∀ u : Tuple, u.values ∈ R → matches? predicate ls rs t u = .ok (hit u.values))
    (hr : right.Reaches db .runs r₀ r) (hy : right.Yields db r R)
    (hempty : rightEmpty = true → R = [] → kind.needsRight = true → rest = [])
    (hnext : ∀ p r', right.Reaches db .runs r₀ r' →
      p.matchedRight = flagsAfter kind hit flags n R →
        Advances kind predicate left right db ls rs p l r' rest) :
    Emits (move kind predicate left right db ls rs) (scanning matched t rightEmpty n flags) l r
      ((R.filter hit).map (t.values ++ ·) ++
        ((if matched || R.any hit then [] else unpaired kind rs.width t) ++ rest)) (.ok ()) := by
  -- Every right row that is seen moves the number on and shows that the input is not empty.
  induction R generalizing r matched rightEmpty n flags with
  | nil =>
    obtain ⟨r', hr'⟩ := hy.next_nil
    have hreach : right.Reaches db .runs r₀ r' := hr.trans (.next hr' (.inl rfl))
    simp only [List.any_nil, Bool.or_false]
    exact emits_end hr' (fun h => hempty h rfl) fun p hp => hnext p r' hreach hp
  | cons x xs ih =>
    obtain ⟨u, r', hr', rfl, hy'⟩ := hy.next_cons
    have hreach : right.Reaches db .runs r₀ r' := hr.trans (.next hr' (.inl rfl))
    have htest := ht u List.mem_cons_self
    have ht' : ∀ v : Tuple, v.values ∈ xs → matches? predicate ls rs t v = .ok (hit v.values) :=
      fun v hv => ht v (List.mem_cons_of_mem _ hv)
    cases hu : hit u.values with
    | false =>
      rw [hu] at htest
      rw [List.filter_cons_of_neg (by simp [hu]), List.any_cons, hu, Bool.false_or]
      refine .again (move_miss hr' htest) (ih ht' hreach hy' (by simp) fun p r'' hr'' hp => ?_)
      exact hnext p r'' hr'' (by rw [hp, flagsAfter, hu]; rfl)
    | true =>
      rw [hu] at htest
      have hmove : move kind predicate left right db ls rs (scanning matched t rightEmpty n flags) l
        r = _ := move_hit hr' htest
      have hfound : found kind (scanning matched t false (n + 1) (grown kind flags n)) n t u =
          (.ok (.row (t.values ++ u.values)),
            scanning true t false (n + 1) (setFlag (grown kind flags n) n)) := by
        cases kind with
        | inner | cross | leftOuter | fullOuter => rfl
        | rightOuter => exact absurd rfl hright
        | semi | anti => simp [JoinKind.leftColumnsOnly] at hkind
      rw [hfound] at hmove
      rw [List.filter_cons_of_pos hu, List.any_cons, hu, Bool.true_or, Bool.or_true]
      refine .row hmove ?_
      have hrest : Emits (move kind predicate left right db ls rs)
          (scanning true t false (n + 1) (setFlag (grown kind flags n) n)) l r'
          ((xs.filter hit).map (t.values ++ ·) ++
            ((if true || xs.any hit then [] else unpaired kind rs.width t) ++ rest)) (.ok ()) :=
        ih ht' hreach hy' (by simp) fun p r'' hr'' hp =>
          hnext p r'' hr'' (by rw [hp, flagsAfter, hu]; rfl)
      exact hrest

/-- A join that gives left rows alone compares the left row with right rows up to the first hit. -/
theorem emits_probe (hkind : kind.leftColumnsOnly = true)
    (ht : ∀ u : Tuple, u.values ∈ R → matches? predicate ls rs t u = .ok (hit u.values))
    (hr : right.Reaches db .runs r₀ r) (hy : right.Yields db r R)
    (hempty : rightEmpty = true → R = [] → kind.needsRight = true → rest = [])
    (hnext : ∀ p r', right.Reaches db .runs r₀ r' →
      Advances kind predicate left right db ls rs p l r' rest) :
    Emits (move kind predicate left right db ls rs) (scanning false t rightEmpty n flags) l r
      ((if R.any hit = (kind == .semi) then [t.values] else []) ++ rest) (.ok ()) := by
  induction R generalizing r rightEmpty n flags with
  | nil =>
    obtain ⟨r', hr'⟩ := hy.next_nil
    have hreach : right.Reaches db .runs r₀ r' := hr.trans (.next hr' (.inl rfl))
    have hend : Emits (move kind predicate left right db ls rs)
      (scanning false t rightEmpty n flags)
        l r (unpaired kind rs.width t ++ rest) (.ok ()) :=
      emits_end hr' (fun h => hempty h rfl) fun p _ => hnext p r' hreach
    cases kind <;> first | exact hend | simp [JoinKind.leftColumnsOnly] at hkind
  | cons x xs ih =>
    obtain ⟨u, r', hr', rfl, hy'⟩ := hy.next_cons
    have hreach : right.Reaches db .runs r₀ r' := hr.trans (.next hr' (.inl rfl))
    have htest := ht u List.mem_cons_self
    have ht' : ∀ v : Tuple, v.values ∈ xs → matches? predicate ls rs t v = .ok (hit v.values) :=
      fun v hv => ht v (List.mem_cons_of_mem _ hv)
    rw [List.any_cons]
    cases hu : hit u.values with
    | false =>
      rw [hu] at htest
      rw [Bool.false_or]
      exact .again (move_miss hr' htest) (ih ht' hreach hy' (by simp))
    | true =>
      rw [hu] at htest
      have hmove : move kind predicate left right db ls rs (scanning false t rightEmpty n flags) l r
        = _ := move_hit hr' htest
      have hrest : Emits (move kind predicate left right db ls rs)
          (settle (scanning false t false (n + 1) (grown kind flags n))) l r' rest (.ok ()) :=
        emits_settled (hnext _ r' hreach)
      cases kind with
      | semi => exact .row hmove hrest
      | anti => exact .again hmove hrest
      | _ => simp [JoinKind.leftColumnsOnly] at hkind

/-- What one left row gives, compared with all right rows. -/
def block (kind : JoinKind) (hit : Row → Bool) (rightWidth : Nat) (l : Row) (R : List Row) :
    List Row :=
  match kind with
  | .inner | .cross => (R.filter hit).map (l ++ ·)
  | .leftOuter | .fullOuter =>
    if R.any hit then (R.filter hit).map (l ++ ·) else [l ++ Tuple.nulls rightWidth]
  | .semi => if R.any hit then [l] else []
  | .anti => if R.any hit then [] else [l]
  | .rightOuter => []

theorem block_of_pairs (hkind : kind.leftColumnsOnly = false) (hright : kind ≠ .rightOuter) :
    (R.filter hit).map (t.values ++ ·) ++ (if R.any hit then [] else unpaired kind rs.width t) =
      block kind hit rs.width t.values R := by
  by_cases h : R.any hit = true
  · cases kind <;> simp_all [block, JoinKind.leftColumnsOnly]
  · have hnone : R.filter hit = [] := by
      rw [List.filter_eq_nil_iff]
      exact fun x hx hhit => h (List.any_eq_true.2 ⟨x, hx, hhit⟩)
    rw [hnone, if_neg h]
    cases kind <;> simp_all [block, unpaired, JoinKind.leftColumnsOnly, JoinKind.preservesLeft]

theorem emits_row (hright : kind ≠ .rightOuter)
    (ht : ∀ u : Tuple, u.values ∈ R → matches? predicate ls rs t u = .ok (hit u.values))
    (hr : right.Reaches db .runs r₀ r) (hy : right.Yields db r R)
    (hempty : R = [] → kind.needsRight = true → rest = [])
    (hnext : ∀ p r', right.Reaches db .runs r₀ r' →
      (kind = .fullOuter → p.matchedRight = flagsAfter kind hit flags 0 R) →
        Advances kind predicate left right db ls rs p l r' rest) :
    Emits (move kind predicate left right db ls rs) (scanning false t rightEmpty 0 flags) l r
      (block kind hit rs.width t.values R ++ rest) (.ok ()) := by
  cases hkind : kind.leftColumnsOnly with
  | false =>
    rw [← block_of_pairs hkind hright, List.append_assoc]
    exact emits_pairs hkind hright ht hr hy (fun _ => hempty) fun p r' hr' hp =>
      hnext p r' hr' fun _ => hp
  | true =>
    have hfull : kind ≠ .fullOuter := by rintro rfl; simp [JoinKind.leftColumnsOnly] at hkind
    have hblock : block kind hit rs.width t.values R =
        if R.any hit = (kind == .semi) then [t.values] else [] := by
      cases kind with
      | semi | anti => simp only [block]; cases R.any hit <;> rfl
      | _ => simp [JoinKind.leftColumnsOnly] at hkind
    rw [hblock]
    exact emits_probe hkind ht hr hy (fun _ => hempty) fun p r' hr' =>
      hnext p r' hr' fun h => absurd h hfull

/-- The right rows that no left row has joined, behind the rows of a full outer join. -/
def leftOver (kind : JoinKind) (test : Row → Row → Bool) (leftWidth : Nat) (L R : List Row) :
    List Row :=
  if kind = JoinKind.fullOuter then
    (R.filter fun r => !L.any (test · r)).map (Tuple.nulls leftWidth ++ ·)
  else []

theorem emits_unmatched (free : Row → Bool) {n : Nat} (hy : right.Yields db r R)
    (hfree : ∀ i x, R[i]? = some x → flagged flags (n + i) = !free x) :
    Emits (move kind predicate left right db ls rs)
      ⟨.rightUnmatched, none, false, rightEmpty, n, flags⟩ l r
      ((R.filter free).map (Tuple.nulls ls.width ++ ·)) (.ok ()) := by
  induction R generalizing r n with
  | nil =>
    obtain ⟨r', hr'⟩ := hy.next_nil
    have hmove : move kind predicate left right db ls rs
        ⟨.rightUnmatched, none, false, rightEmpty, n, flags⟩ l r =
          (.ok .again, ⟨.exhausted, none, false, rightEmpty, n, flags⟩, l, r') := by
      simp only [move, step, inputs, hr']
    exact .again hmove (emits_exhausted rfl)
  | cons x xs ih =>
    obtain ⟨u, r', hr', rfl, hy'⟩ := hy.next_cons
    have hflag : (flags[n]?).getD false = !free u.values := hfree 0 u.values rfl
    have hrest := ih (n := n + 1) hy' fun i x hx => by
      rw [show n + 1 + i = n + (i + 1) by omega]
      exact hfree (i + 1) x (by simpa using hx)
    have hmove : move kind predicate left right db ls rs
        ⟨.rightUnmatched, none, false, rightEmpty, n, flags⟩ l r =
          (.ok (if free u.values then .row (Tuple.nulls ls.width ++ u.values) else .again),
            ⟨.rightUnmatched, none, false, rightEmpty, n + 1, flags⟩, l, r') := by
      simp only [move, step, inputs, hr', hflag]
      cases free u.values <;> rfl
    cases hu : free u.values with
    | false =>
      rw [hu] at hmove
      rw [List.filter_cons_of_neg (by simp [hu])]
      exact .again hmove hrest
    | true =>
      rw [hu] at hmove
      rw [List.filter_cons_of_pos hu]
      exact .row hmove hrest

section Loop

variable {test : Row → Row → Bool} {r' : right.State} {l' : left.State}

theorem advance_of_some (hl : left.next db l = (.ok (some t), l'))
    (hr : right.rewind r = (.ok (), r')) :
    advance kind (inputs left right db) p l r =
      (.ok .again, scanning false t p.rightEmpty 0 p.matchedRight, l', r') := by
  simp only [advance, rewindFor, inputs, hl, hr, scanning]

theorem advance_of_none (hl : left.next db l = (.ok none, l')) (hkind : kind ≠ .fullOuter) :
    advance kind (inputs left right db) p l r =
      (.ok .again, { p with left := none, leftDone := false, phase := .exhausted }, l', r) := by
  simp only [advance, inputs, hl, if_neg hkind]

theorem advance_to_unmatched (hl : left.next db l = (.ok none, l'))
    (hr : right.rewind r = (.ok (), r')) :
    advance .fullOuter (inputs left right db) p l r =
      (.ok .again, ⟨.rightUnmatched, none, false, p.rightEmpty, 0, p.matchedRight⟩, l', r') := by
  simp only [advance, rewindFor, inputs, hl, hr, if_true]

theorem blocks_of_empty (hkind : kind.needsRight = true) (rightWidth leftWidth : Nat)
    (L L' : List Row) :
    (L.flatMap fun l => block kind (test l) rightWidth l []) ++ leftOver kind test leftWidth L' [] =
      [] := by
  cases kind <;> simp [JoinKind.needsRight] at hkind <;> simp [block, leftOver]

/-- From a left row on, the join gives what each of the rows gives, and then the right rows that no
left row has joined. In between, the flags tell the partners of the left rows before. -/
theorem advances_all (hright : kind ≠ .rightOuter) (L₁ : List Row) {L₂ : List Row}
    (htest : ∀ t u : Tuple, t.values ∈ L₂ → u.values ∈ R →
      matches? predicate ls rs t u = .ok (test t.values u.values))
    (hR : right.Gives db r₀ R) (hr : right.Reaches db .runs r₀ r) (hL : left.Yields db l L₂)
    (hflags : kind = .fullOuter → ∀ i x, R[i]? = some x →
      flagged p.matchedRight i = L₁.any (test · x)) :
    Advances kind predicate left right db ls rs p l r
      ((L₂.flatMap fun l => block kind (test l) rs.width l R) ++
        leftOver kind test ls.width (L₁ ++ L₂) R) := by
  obtain ⟨r', hr', hy⟩ := hR hr
  have hreach : right.Reaches db .runs r₀ r' := hr.trans (.rewind hr' (.inl rfl))
  -- On the left rows to come; `L₁` are those before, whose partners the flags tell.
  induction L₂ generalizing L₁ p l r r' with
  | nil =>
    obtain ⟨l', hl'⟩ := hL.next_nil
    by_cases hkind : kind = .fullOuter
    · subst hkind
      refine ⟨_, _, _, advance_to_unmatched hl' hr', ?_⟩
      rw [List.flatMap_nil, List.nil_append, List.append_nil, leftOver, if_pos rfl]
      refine emits_unmatched (fun x => !L₁.any (test · x)) hy fun i x hx => ?_
      rw [Nat.zero_add, hflags rfl i x hx, Bool.not_not]
    · refine ⟨_, _, _, advance_of_none hl' hkind, ?_⟩
      rw [List.flatMap_nil, List.nil_append, leftOver, if_neg hkind]
      exact emits_exhausted rfl
  | cons x xs ih =>
    obtain ⟨t, l', hl', rfl, hL'⟩ := hL.next_cons
    refine ⟨_, _, _, advance_of_some hl' hr', ?_⟩
    rw [List.flatMap_cons, List.append_assoc]
    refine emits_row hright (fun u hu => htest t u List.mem_cons_self hu) hreach hy
      (fun h hkind => by subst h; exact blocks_of_empty hkind ..) fun p' r'' hr'' hp => ?_
    -- The next left row starts the right input again, which gives the same rows as before.
    obtain ⟨r₃, hr₃, hy₃⟩ := hR hr''
    have hrest := ih (p := p') (L₁ ++ [t.values])
      (fun t u ht hu => htest t u (List.mem_cons_of_mem _ ht) hu) hr'' hL' (fun hkind i y hy => ?_)
      r₃ hr₃ hy₃ (hr''.trans (.rewind hr₃ (.inl rfl)))
    · rw [List.append_assoc, List.singleton_append] at hrest
      exact hrest
    · subst hkind
      rw [hp rfl, flagged_flagsAfter, hflags rfl i y hy, Nat.sub_zero, hy]
      simp

end Loop

end Row

section Main

variable {kind : JoinKind} {predicate : Option Expr} {swapped : Bool} {left right : Operator}
  {config : Config} {db : Storage} {s₀ s : State left.State right.State} {L R : List Row}
  {test test' : Row → Row → Bool} {glue glue' : Row → Row → Row} {leftWidth rightWidth : Nat}
  {x : Row}

theorem reference_eq (hright : kind ≠ .rightOuter) :
    (L.flatMap fun l => block kind (test l) rightWidth l R) ++ leftOver kind test leftWidth L R =
      kind.reference test (· ++ ·) leftWidth rightWidth L R := by
  cases kind with
  | rightOuter => exact absurd rfl hright
  | inner | cross | leftOuter =>
    simp only [block, leftOver, JoinKind.reference, reduceCtorEq, if_false, List.append_nil]
  | fullOuter => simp only [block, leftOver, JoinKind.reference, if_true]
  | semi | anti =>
    simp only [block, leftOver, JoinKind.reference, reduceCtorEq, if_false, List.append_nil]
    induction L with
    | nil => rfl
    | cons l ls ih =>
      rw [List.flatMap_cons, List.filter_cons, ih]
      cases R.any (test l) <;> rfl

theorem reference_map (f : Row → Row) (hkind : kind.leftColumnsOnly = false)
    (hf : ∀ l, l ∈ L ∨ l = Tuple.nulls leftWidth → ∀ r, f (glue l r) = glue' l r) :
    (kind.reference test glue leftWidth rightWidth L R).map f =
      kind.reference test glue' leftWidth rightWidth L R := by
  have hpairs : ∀ l, l ∈ L ∨ l = Tuple.nulls leftWidth → ∀ rs : List Row,
      (rs.map (glue l)).map f = rs.map (glue' l) := fun l hl rs => by
    rw [List.map_map]
    exact List.map_congr_left fun r _ => hf l hl r
  have hpadded : ∀ l ∈ L, (if R.any (test l) then (R.filter (test l)).map (glue l)
      else [glue l (Tuple.nulls rightWidth)]).map f =
        if R.any (test l) then (R.filter (test l)).map (glue' l)
        else [glue' l (Tuple.nulls rightWidth)] := fun l hl => by
    split
    · exact hpairs l (.inl hl) _
    · rw [List.map_singleton, hf l (.inl hl)]
  cases kind with
  | inner | cross =>
    simp only [JoinKind.reference, List.map_flatMap]
    exact List.flatMap_congr fun l hl => hpairs l (.inl hl) _
  | leftOuter =>
    simp only [JoinKind.reference, List.map_flatMap]
    exact List.flatMap_congr hpadded
  | fullOuter =>
    simp only [JoinKind.reference, List.map_append, List.map_flatMap]
    rw [List.flatMap_congr hpadded, hpairs _ (.inr rfl)]
  | rightOuter =>
    simp only [JoinKind.reference, List.map_flatMap]
    refine List.flatMap_congr fun r _ => ?_
    split
    · rw [List.map_map]
      exact List.map_congr_left fun l hl => hf l (.inl (List.mem_of_mem_filter hl)) r
    · rw [List.map_singleton, hf _ (.inr rfl)]
  | semi | anti => simp [JoinKind.leftColumnsOnly] at hkind

theorem any_congr_mem {rows : List Row} {p q : Row → Bool} (h : ∀ r ∈ rows, p r = q r) :
    rows.any p = rows.any q := by
  rw [Bool.eq_iff_iff, List.any_eq_true, List.any_eq_true]
  exact exists_congr fun r => and_congr_right fun hr => by rw [h r hr]

theorem reference_congr (h : ∀ l ∈ L, ∀ r ∈ R, test l r = test' l r) :
    kind.reference test glue leftWidth rightWidth L R =
      kind.reference test' glue leftWidth rightWidth L R := by
  have hfilter : ∀ l ∈ L, R.filter (test l) = R.filter (test' l) := fun l hl =>
    List.filter_congr fun r hr => h l hl r hr
  have hfilter' : ∀ r ∈ R, L.filter (test · r) = L.filter (test' · r) := fun r hr =>
    List.filter_congr fun l hl => h l hl r hr
  have hany : ∀ l ∈ L, R.any (test l) = R.any (test' l) := fun l hl =>
    any_congr_mem fun r hr => h l hl r hr
  have hany' : ∀ r ∈ R, L.any (test · r) = L.any (test' · r) := fun r hr =>
    any_congr_mem fun l hl => h l hl r hr
  have hblock : ∀ l ∈ L, (if R.any (test l) then (R.filter (test l)).map (glue l)
      else [glue l (Tuple.nulls rightWidth)]) = if R.any (test' l) then
        (R.filter (test' l)).map (glue l) else [glue l (Tuple.nulls rightWidth)] := fun l hl => by
    rw [hany l hl, hfilter l hl]
  cases kind with
  | inner | cross => exact List.flatMap_congr fun l hl => by rw [hfilter l hl]
  | leftOuter => exact List.flatMap_congr hblock
  | rightOuter => exact List.flatMap_congr fun r hr => by rw [hany' r hr, hfilter' r hr]
  | fullOuter =>
    refine congrArg₂ (· ++ ·) (List.flatMap_congr hblock) (congrArg (List.map _) ?_)
    exact List.filter_congr fun r hr => by rw [hany' r hr]
  | semi => exact List.filter_congr hany
  | anti => exact List.filter_congr fun l hl => by rw [hany l hl]

theorem reference_rightOuter (test : Row → Row → Bool) (glue : Row → Row → Row)
    (leftWidth rightWidth : Nat) (L R : List Row) :
    JoinKind.leftOuter.reference (fun r l => test l r) (fun r l => glue l r) rightWidth leftWidth
      R L = JoinKind.rightOuter.reference test glue leftWidth rightWidth L R := rfl

theorem mem_reference (h : x ∈ kind.reference test glue leftWidth rightWidth L R) :
    if kind.leftColumnsOnly then x ∈ L
    else ∃ l r, (l ∈ L ∨ l = Tuple.nulls leftWidth) ∧ (r ∈ R ∨ r = Tuple.nulls rightWidth) ∧
      x = glue l r := by
  have hblock : x ∈ (L.flatMap fun l => if R.any (test l) then (R.filter (test l)).map (glue l)
      else [glue l (Tuple.nulls rightWidth)]) → ∃ l r, (l ∈ L ∨ l = Tuple.nulls leftWidth) ∧
        (r ∈ R ∨ r = Tuple.nulls rightWidth) ∧ x = glue l r := fun h => by
    obtain ⟨l, hl, hx⟩ := List.mem_flatMap.1 h
    split at hx
    · obtain ⟨r, hr, rfl⟩ := List.mem_map.1 hx
      exact ⟨l, r, .inl hl, .inl (List.mem_of_mem_filter hr), rfl⟩
    · exact ⟨l, _, .inl hl, .inr rfl, List.mem_singleton.1 hx⟩
  cases kind with
  | inner | cross =>
    obtain ⟨l, hl, hx⟩ := List.mem_flatMap.1 h
    obtain ⟨r, hr, rfl⟩ := List.mem_map.1 hx
    exact ⟨l, r, .inl hl, .inl (List.mem_of_mem_filter hr), rfl⟩
  | leftOuter => exact hblock h
  | rightOuter =>
    obtain ⟨r, hr, hx⟩ := List.mem_flatMap.1 h
    split at hx
    · obtain ⟨l, hl, rfl⟩ := List.mem_map.1 hx
      exact ⟨l, r, .inl (List.mem_of_mem_filter hl), .inl hr, rfl⟩
    · exact ⟨_, r, .inr rfl, .inl hr, List.mem_singleton.1 hx⟩
  | fullOuter =>
    rcases List.mem_append.1 h with h | h
    · exact hblock h
    · obtain ⟨r, hr, rfl⟩ := List.mem_map.1 h
      exact ⟨_, r, .inr rfl, .inl (List.mem_of_mem_filter hr), rfl⟩
  | semi | anti => exact List.mem_of_mem_filter h

/-- The columns of a pair of rows in the order of the output. -/
def glueFor (swapped : Bool) (l r : Row) : Row := if swapped then r ++ l else l ++ r

/-- The predicate is true of a pair of rows; unknown does not count. -/
def trueFor (predicate : Option Expr) (ls rs : Schema) (l r : Row) : Bool :=
  match predicate with
  | none => true
  | some p =>
    match p.eval (.pair ls l rs r) with
    | .ok (.bool b) => b
    | _ => false

theorem matches_of_holds {ls rs : Schema} {t u : Tuple}
    (h : ∀ p, predicate = some p → ∃ b, p.holds (.pair ls t.values rs u.values) = .ok b) :
    matches? predicate ls rs t u = .ok (trueFor predicate ls rs t.values u.values) := by
  cases predicate with
  | none => rfl
  | some p =>
    obtain ⟨b, hb⟩ := h p rfl
    obtain ⟨v, heval, htruth⟩ := Except.bind_eq_ok.1 hb
    obtain ⟨known, hknown, hvalue⟩ := Except.bind_eq_ok.1 htruth
    obtain rfl := Except.ok.inj hvalue
    simp only [matches?, hb, trueFor, heval]
    -- A predicate has a truth value or NULL, which is not true.
    cases v <;> simp [Value.truth] at hknown <;> subst hknown <;> rfl

theorem prepare_ok
    (h : (Operator.join kind predicate swapped left right).prepare config s₀ = (.ok (), s)) :
    s.leftSchema = (left.status s.left).schema ∧ s.rightSchema = (right.status s.right).schema ∧
      kind ≠ .rightOuter ∧ (swapped = true → kind.leftColumnsOnly = false) ∧
      s.status.check .join = .ok () := by
  obtain ⟨l, r, q, -, -, hkind, -, rfl⟩ := prepare_eq_ok.1 h
  unfold checkKind at hkind
  split at hkind
  · simp at hkind
  next hright =>
  split at hkind
  · simp at hkind
  next hswap => exact ⟨rfl, rfl, hright, by simpa using hswap, rfl⟩

theorem dress_glue {l : Row} (hl : swapped = true → l.length = leftWidth) (r : Row) :
    dress swapped leftWidth (l ++ r) = glueFor swapped l r := by
  cases swapped with
  | false => rfl
  | true => simp [dress, exchange, glueFor, ← hl rfl]

theorem dress_reference (hkind : swapped = true → kind.leftColumnsOnly = false)
    (hwidth : swapped = true → ∀ l ∈ L, l.length = leftWidth) :
    (kind.reference test (· ++ ·) leftWidth rightWidth L R).map (dress swapped leftWidth) =
      kind.reference test (glueFor swapped) leftWidth rightWidth L R := by
  cases hs : swapped with
  | false => exact List.map_id _
  | true =>
    refine reference_map _ (hkind hs) fun l hl r => dress_glue (fun _ => ?_) r
    obtain hl | rfl := hl
    · exact hwidth hs l hl
    · exact List.length_replicate

theorem emits_reference {ls rs : Schema} {l : left.State} {r r₀ : right.State}
    (hright : kind ≠ .rightOuter)
    (htest : ∀ t u : Tuple, t.values ∈ L → u.values ∈ R →
      matches? predicate ls rs t u = .ok (test t.values u.values))
    (hR : right.Gives db r₀ R) (hr : right.Reaches db .runs r₀ r) (hL : left.Yields db l L) :
    Emits (move kind predicate left right db ls rs) .fresh l r
      (kind.reference test (· ++ ·) ls.width rs.width L R) (.ok ()) := by
  obtain ⟨p', l', r', hadvance, hemits⟩ :
      Advances kind predicate left right db ls rs .fresh l r _ :=
    advances_all hright [] htest hR hr hL fun _ _ _ _ => rfl
  rw [List.nil_append, reference_eq hright] at hemits
  exact .again hadvance hemits

theorem yields_of_emits {ls rs : Schema} {p : Progress} {l : left.State} {r : right.State}
    {rows : List Row} (h : Emits (move kind predicate left right db ls rs) p l r rows (.ok ()))
    (status : Status) (mark : Option Progress) :
    (Operator.join kind predicate swapped left right).Yields db
      (⟨status, ls, rs, p, mark, l, r⟩ : State left.State right.State)
      (rows.map (dress swapped ls.width)) := by
  have htrace : (Operator.join kind predicate swapped left right).trace db
      (⟨status, ls, rs, p, mark, l, r⟩ : State left.State right.State) = _ :=
    trace_of_emits h status mark
  refine ⟨?_, by rw [htrace]⟩
  rw [htrace, Trace.rows, List.map_map]
  rfl

theorem rewind_of_ok {f : left.State → Outcome Unit left.State}
    {g : right.State → Outcome Unit right.State} {l : left.State} {r : right.State}
    (hcheck : s.status.check .join = .ok ()) (hf : f s.left = (.ok (), l))
    (hg : g s.right = (.ok (), r)) :
    rewind f g s =
      (.ok (), ⟨s.status.restart, s.leftSchema, s.rightSchema, .fresh, s.mark, l, r⟩) := by
  simp only [rewind, hcheck, both, hf, hg]

/-- A prepared join over two inputs that give the same rows in every run gives the rows of the
reference in every run, when the predicate has a value on each pair of rows. -/
theorem gives_reference
    (hprepare : (Operator.join kind predicate swapped left right).prepare config s₀ = (.ok (), s))
    (hL : left.Gives db s.left L) (hR : right.Gives db s.right R)
    (htotal : ∀ p, predicate = some p → ∀ l ∈ L, ∀ r ∈ R,
      ∃ b, p.holds (.pair (left.status s.left).schema l (right.status s.right).schema r) = .ok b)
    (hwidth : swapped = true → ∀ l ∈ L, l.length = (left.status s.left).schema.width) :
    (Operator.join kind predicate swapped left right).Gives db s
      (kind.reference (trueFor predicate (left.status s.left).schema (right.status s.right).schema)
        (glueFor swapped) (left.status s.left).schema.width (right.status s.right).schema.width
        L R) := by
  obtain ⟨hls, hrs, hright, hswap, hcheck⟩ := prepare_ok hprepare
  rw [← hls, ← hrs] at htotal ⊢
  rw [← hls] at hwidth
  intro s' hs'
  obtain ⟨l, hl, hly⟩ := hL (reaches_left hs')
  obtain ⟨r, hr, -⟩ := hR (reaches_right hs')
  obtain ⟨hprofile, hls', hrs'⟩ : s'.status.profile = s.status.profile ∧
      s'.leftSchema = s.leftSchema ∧ s'.rightSchema = s.rightSchema := by
    simpa [State.settled] using settled_eq hs'
  have hemits : Emits (move kind predicate left right db s.leftSchema s.rightSchema) .fresh l r _
      (.ok ()) :=
    emits_reference hright
      (fun t u ht hu => matches_of_holds fun p hp => htotal p hp t.values ht u.values hu)
      hR ((reaches_right hs').trans (.rewind hr (.inl rfl))) hly
  refine ⟨_, rewind_of_ok ((Status.check_congr hprofile).trans hcheck) hl hr, ?_⟩
  rw [hls', hrs', ← dress_reference hswap hwidth]
  exact yields_of_emits hemits _ _

/-- A full outer join with exchanged columns: one partner, one row of either side without one, and
the NULL on the right joins nothing. -/
theorem gives_reference_constants :
    let left := Operator.values ⟨[⟨"a", none, .bigInt⟩]⟩ [[.int 1], [.int 2]]
    let right := Operator.values ⟨[⟨"b", none, .bigInt⟩]⟩ [[.int 2], [.null]]
    let join := Operator.join .fullOuter
      (some (.compare .eq (.column ⟨none, "a"⟩) (.column ⟨none, "b"⟩))) true left right
    ∃ s, join.prepare .default join.start = (.ok (), s) ∧
      join.Gives ⟨1, []⟩ s [[.null, .int 1], [.int 2, .int 2], [.null, .null]] := by
  intro left right join
  obtain ⟨s, hs⟩ : ∃ s, join.prepare .default join.start = (.ok (), s) := ⟨_, rfl⟩
  have hl : left.Gives ⟨1, []⟩ (State.left s) [[.int 1], [.int 2]] :=
    Values.gives (by obtain ⟨-, rfl⟩ := Prod.mk.inj hs; rfl)
  have hr : right.Gives ⟨1, []⟩ (State.right s) [[.int 2], [.null]] :=
    Values.gives (by obtain ⟨-, rfl⟩ := Prod.mk.inj hs; rfl)
  have htotal : ∀ p, some (Expr.compare .eq (.column ⟨none, "a"⟩) (.column ⟨none, "b"⟩)) = some p →
      ∀ l ∈ [[Value.int 1], [.int 2]], ∀ r ∈ [[Value.int 2], [.null]],
        ∃ b, p.holds (.pair (left.status (State.left s)).schema l
          (right.status (State.right s)).schema r) = .ok b := by
    obtain ⟨-, rfl⟩ := Prod.mk.inj hs
    rintro p ⟨⟩ l hl r hr
    simp only [List.mem_cons, List.not_mem_nil, or_false] at hl hr
    obtain rfl | rfl := hl <;> obtain rfl | rfl := hr <;> exact ⟨_, rfl⟩
  have hwidth : true = true → ∀ l ∈ [[Value.int 1], [.int 2]],
      l.length = (left.status (State.left s)).schema.width := by
    obtain ⟨-, rfl⟩ := Prod.mk.inj hs
    rintro - l hl
    simp only [List.mem_cons, List.not_mem_nil, or_false] at hl
    obtain rfl | rfl := hl <;> rfl
  refine ⟨s, hs, ?_⟩
  have hgives := gives_reference hs hl hr htotal hwidth
  obtain ⟨-, rfl⟩ := Prod.mk.inj hs
  exact hgives

end Main

end Join

end RelQuery
