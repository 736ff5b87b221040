import RelQuery.Proofs.Measuring
import RelQuery.Proofs.SelectivityBounds

namespace RelQuery

namespace Value

variable {S : Set Value} {a b : Value}

/-- Values of one kind, beside NULLs, are in order, if all doubles are numbers. -/
theorem transitiveOn_of_typeName (name : String)
    (hkind : ∀ w ∈ S, w.isNull = false → w.typeName = name)
    (hnumber : ∀ x, .float x ∈ S → x.isNaN = false) : TransitiveOn S := by
  have hplace : ∀ {x}, .float x ∈ S → Double.place? x ≠ none := by
    intro x hx hnone
    rw [Double.place?_eq_none_iff, hnumber x hx] at hnone
    exact Bool.false_ne_true hnone
  apply Orderly.transitiveOn
  exact {
    apart := fun hx hi => by
      have hnames := (hkind _ hx rfl).trans (hkind _ hi rfl).symm
      simp [typeName] at hnames
    single := fun hn hnone => absurd hnone (hplace hn)
    before := fun hn hnone => absurd hnone (hplace hn) }

theorem compare?_of_eval {env : Environment}
    (h : (Expr.compare .eq (.literal a) (.literal b)).eval env = .ok (.bool true)) :
    a.isNull = false ∧ compare? a b = some .eq := by
  have hcompare : a.compareWith .eq b = .ok (.bool true) := h
  unfold compareWith at hcompare
  split at hcompare
  · exact absurd hcompare (by simp)
  next hnull =>
    split at hcompare
    next o ho =>
      cases o <;> simp_all [Comparison.accepts]
    · exact absurd hcompare (by simp)

theorem isNaN_of_compare? {y : Double} {o : Ordering} (h : compare? a (.float y) = some o) :
    y.isNaN = false := by
  rw [Bool.eq_false_iff]
  intro hnan
  have hplace := (Double.place?_eq_none_iff y).2 hnan
  cases a <;> simp [compare?, Double.compare?, hplace] at h

end Value

namespace ColumnStats

open Value (order atMost tied TransitiveOn)

variable {vs : List Value} {v w x : Value}

/-- The values are of the kind of a constant, beside NULLs, and the doubles are numbers. -/
structure Comparable (vs : List Value) (v : Value) : Prop where
  kind : ∀ w ∈ vs, w.isNull = false → w.typeName = v.typeName
  number : ∀ x, .float x ∈ vs → x.isNaN = false

theorem Comparable.transitiveOn (h : Comparable vs v) (hx : x.compare? v = some .eq) :
    TransitiveOn (insert v {w | w ∈ present vs}) := by
  refine Value.transitiveOn_of_typeName v.typeName (fun w hw hnull => ?_) fun y hy => ?_
  · rcases hw with rfl | hw
    · rfl
    · exact h.kind w (List.mem_of_mem_filter hw) hnull
  · rcases hy with rfl | hy
    · exact Value.isNaN_of_compare? hx
    · exact h.number y (List.mem_of_mem_filter hy)

theorem distinct_ofValues (vs : List Value) :
    ∃ n, (ofValues vs).distinct = some n ∧ n ≤ (present vs).length := by
  refine ⟨_, rfl, ?_⟩
  exact (heads_sublist _).length_le.trans (List.length_mergeSort _).le

/-- A constant that ties with a value of a column is within the bounds of the column. -/
theorem Describes.within {stats : ColumnStats} (h : stats.Describes vs)
    (htrans : TransitiveOn (insert v {w | w ∈ present vs})) (hx : x ∈ present vs)
    (htie : order x v = .eq) :
    (∀ low, stats.min = some low → atMost low v) ∧
      ∀ high, stats.max = some high → atMost v high := by
  obtain ⟨hxv, hvx⟩ := Value.order_eq_iff.1 htie
  have hv : v ∈ insert v {w | w ∈ present vs} := Set.mem_insert v _
  have hmem : ∀ w ∈ present vs, w ∈ insert v {w | w ∈ present vs} := fun w hw => .inr hw
  refine ⟨fun low hlow => ?_, fun high hhigh => ?_⟩
  · obtain ⟨hlow, hleast⟩ := h.min low hlow
    exact htrans low (hmem low hlow) x (hmem x hx) v hv (hleast x hx) hxv
  · obtain ⟨hhigh, hgreatest⟩ := h.max high hhigh
    exact htrans v hv x (hmem x hx) high (hmem high hhigh) hvx (hgreatest x hx)

end ColumnStats

namespace Selectivity

open ColumnStats (present)

/-- The estimate of an equality that a value satisfies is that of one value among those that differ,
of which there are no more than values that are not NULL. -/
theorem equalsValue_of_satisfied (fallback : Float32) (env : Environment) (vs : List Value) :
    let stats := ColumnStats.ofValues vs
    ∃ n, stats.distinct = some n ∧ n ≤ (present vs).length ∧
      ∀ v, ColumnStats.Comparable vs v → ∀ x ∈ vs,
        (Expr.compare .eq (.literal x) (.literal v)).eval env = .ok (.bool true) →
          stats.min.bind v.compare? ≠ some .lt ∧ stats.max.bind v.compare? ≠ some .gt ∧ 0 < n ∧
            equalsValue fallback stats v = 1.0 / Single.ofNat n := by
  intro stats
  obtain ⟨n, hn, hle⟩ := ColumnStats.distinct_ofValues vs
  refine ⟨n, hn, hle, fun v hv x hx hsatisfied => ?_⟩
  obtain ⟨hnull, hequal⟩ := Value.compare?_of_eval hsatisfied
  have htrans := hv.transitiveOn hequal
  have hmem : x ∈ present vs := List.mem_filter.2 ⟨hx, by simp [hnull]⟩
  have hdescribes := ColumnStats.describes_ofValues (htrans.mono (Set.subset_insert v _))
  obtain ⟨hlow, hhigh⟩ := hdescribes.within htrans hmem (Value.order_of_compare? hequal)
  have hbelow : stats.min.bind v.compare? ≠ some .lt := by
    intro hlt
    obtain ⟨low, hmin, hlt⟩ := Option.bind_eq_some_iff.1 hlt
    exact (Value.order_lt_iff.1 (Value.order_of_compare? hlt)).2 (hlow low hmin)
  have habove : stats.max.bind v.compare? ≠ some .gt := by
    intro hgt
    obtain ⟨high, hmax, hgt⟩ := Option.bind_eq_some_iff.1 hgt
    have hatMost := hhigh high hmax
    rw [Value.atMost, Value.order_of_compare? hgt] at hatMost
    exact absurd hatMost (by decide)
  have hpos : 0 < n := by
    obtain rfl := Option.some.inj (hn.symm.trans hdescribes.distinct)
    exact List.length_pos_of_mem (List.mem_dedup.2 (List.mem_map_of_mem hmem))
  refine ⟨hbelow, habove, hpos, ?_⟩
  simp [equalsValue, show stats.distinct = some n from hn, hbelow, habove, hpos.ne']

/-- The zeros tie, so that two values differ: the constant equals one zero, and the other is
counted. -/
theorem equalsValue_of_satisfied_zeros :
    let one : Value := .float (.ofBits 0x3ff0000000000000)
    let negativeZero : Value := .float (.ofBits 0x8000000000000000)
    let vs : List Value := [one, .null, .float (.ofBits 0), negativeZero, one]
    (present vs).length = 4 ∧
      equalsValue defaultFraction (.ofValues vs) negativeZero = 1.0 / Single.ofNat 2 := by
  intro one negativeZero vs
  have hcomparable : ColumnStats.Comparable vs negativeZero := by
    constructor
    · simp [vs, one, negativeZero, Value.isNull, Value.typeName]
    · have hnumbers : ∀ w ∈ vs, w.toFloat?.all (!·.isNaN) = true := by decide
      exact fun x hx => by simpa [Value.toFloat?] using hnumbers _ hx
  have hzero : Value.float (.ofBits 0) ∈ vs := by simp [vs]
  have htrans := (hcomparable.transitiveOn (x := .float (.ofBits 0)) (by decide)).mono
    (Set.subset_insert negativeZero _)
  have hdistinct := (ColumnStats.describes_ofValues htrans).distinct.trans
    (show _ = some 2 by decide)
  obtain ⟨n, hn, hle, hsatisfied⟩ := equalsValue_of_satisfied defaultFraction ⟨[]⟩ vs
  obtain rfl := Option.some.inj (hn.symm.trans hdistinct)
  obtain ⟨-, -, -, hestimate⟩ := hsatisfied negativeZero hcomparable _ hzero rfl
  exact ⟨rfl, hestimate⟩

end Selectivity

end RelQuery
