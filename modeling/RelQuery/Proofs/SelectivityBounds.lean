import Mathlib
import RelQuery.Estimate.Selectivity
import RelQuery.Proofs.Measuring
import RelQuery.Proofs.Nodes
import RelQuery.Proofs.NotANumber
import RelQuery.Proofs.UnitInterval

namespace RelQuery

/-- The side of a range that a comparison with a constant asks for, or its complement. -/
def Comparison.side? : Comparison → Option Selectivity.Side
  | .le | .gt => some .atMost
  | .ge | .lt => some .atLeast
  | .eq | .ne => none

namespace Selectivity

open Single (IsFraction FractionUnless)

variable {s : Schema} {stats : List ColumnStats} {fallback : Float32}
  {type : SqlType} {st : ColumnStats} {v : Value} {side : Side} {low high x : Float}

/-- How far a constant lies inside the range, seen from the end where a side begins. -/
def Side.distance : Side → Float → Float → Float → Float
  | .atMost, low, _, x => x - low
  | .atLeast, _, high, x => high - x

/-- The part of a range on one side of a constant, before it is rounded and confined. -/
def Side.part (side : Side) (low high x : Float) : Float :=
  let inner := side.distance low high x / (high - low)
  match side with
  | .atMost => if x < low then 0.0 else if high < x then 1.0 else inner
  | .atLeast => if x < low then 1.0 else if high < x then 0.0 else inner

/-- The bounds of a column and a constant as doubles, where its values are numbers and differ. -/
structure Ranges (type : SqlType) (st : ColumnStats) (v : Value) (low high x : Double) : Prop where
  numeric : type.isNumeric = true
  lower : st.min.bind Value.toDouble? = some low
  upper : st.max.bind Value.toDouble? = some high
  constant : v.toDouble? = some x
  apart : (low.toFloat == high.toFloat) = false

/-- A constant between the bounds whose place there is not a number. -/
structure Unplaced (side : Side) (low high x : Float) : Prop where
  not_below : ¬x < low
  not_above : ¬high < x
  lost : x.isNaN = true ∨
    (side.distance low high x).isFinite = false ∧ (high - low).isFinite = false

/-- The bounds of a column and a constant are such that the constant is lost between them. -/
def Loses (type : SqlType) (st : ColumnStats) (v : Value) (side : Side) : Prop :=
  ∃ low high x, Ranges type st v low high x ∧
    Unplaced side low.toFloat high.toFloat x.toFloat

theorem rangeFraction?_eq_some_iff {z : Float32} : rangeFraction? type st v side = some z ↔
    ∃ low high x, Ranges type st v low high x ∧
      Single.clampUnit (Double.toSingle (.ofFloat
        (side.part low.toFloat high.toFloat x.toFloat))) = z := by
  unfold rangeFraction?
  simp only [Option.bind_eq_bind, Option.bind_eq_some_iff, Option.guard_eq_some', Option.pure_def,
    Option.some_inj]
  constructor
  · rintro ⟨-, hnumeric, a, ha, low, hlow, b, hb, high, hhigh, x, hx, -, hne, rfl⟩
    refine ⟨low, high, x, ⟨hnumeric, ?_, ?_, hx, Bool.not_eq_true' _ ▸ hne⟩, ?_⟩
    · rw [ha, Option.bind_some, hlow]
    · rw [hb, Option.bind_some, hhigh]
    · cases side <;> rfl
  · rintro ⟨low, high, x, h, rfl⟩
    obtain ⟨a, ha, hlow⟩ := Option.bind_eq_some_iff.1 h.lower
    obtain ⟨b, hb, hhigh⟩ := Option.bind_eq_some_iff.1 h.upper
    refine ⟨(), h.numeric, a, ha, low, hlow, b, hb, high, hhigh, x, h.constant, (), ?_, ?_⟩
    · exact congrArg (!·) h.apart
    · cases side <;> rfl

theorem isNaN_ratio_iff (side : Side) (x : Float) (hlow : low.isNaN = false)
    (hhigh : high.isNaN = false) (hne : (low == high) = false) :
    (side.distance low high x / (high - low)).isNaN = true ↔ x.isNaN = true ∨
      (side.distance low high x).isFinite = false ∧ (high - low).isFinite = false := by
  refine Double.isNaN_ratio_iff (Double.nonzero_sub hhigh hlow hne) (fun hx => ?_) fun hd => ?_
  · cases side with
    | atMost => exact Double.isNaN_sub_of_isNaN (.inl hx)
    | atLeast => exact Double.isNaN_sub_of_isNaN (.inr hx)
  · cases side with
    | atMost =>
      rcases Double.isNaN_sub hd with hx | hend | ⟨-, hend⟩
      · exact .inl hx
      · exact absurd (hlow.symm.trans hend) Bool.false_ne_true
      · exact .inr (Double.isFinite_sub (.inr hend))
    | atLeast =>
      rcases Double.isNaN_sub hd with hend | hx | ⟨hend, -⟩
      · exact absurd (hhigh.symm.trans hend) Bool.false_ne_true
      · exact .inl hx
      · exact .inr (Double.isFinite_sub (.inl hend))

theorem Side.part_cases (side : Side) (low high x : Float) :
    side.part low high x = 0.0 ∨ side.part low high x = 1.0 ∨
      ¬x < low ∧ ¬high < x ∧ side.part low high x = side.distance low high x / (high - low) := by
  by_cases hbelow : x < low <;> by_cases habove : high < x <;> cases side <;>
    simp [Side.part, hbelow, habove]

/-- A constant is lost only between the bounds, and only where no arithmetic places it. -/
theorem isNaN_part_iff (hlow : low.isNaN = false) (hhigh : high.isNaN = false)
    (hne : (low == high) = false) :
    (side.part low high x).isNaN = true ↔ Unplaced side low high x := by
  have hratio := isNaN_ratio_iff side x hlow hhigh hne
  constructor
  · intro h
    rcases side.part_cases low high x with hpart | hpart | ⟨hbelow, habove, hpart⟩ <;>
      rw [hpart] at h
    · exact Bool.noConfusion h
    · exact Bool.noConfusion h
    · exact ⟨hbelow, habove, hratio.1 h⟩
  · intro h
    have hpart : side.part low high x = side.distance low high x / (high - low) := by
      cases side <;> simp only [Side.part, if_neg h.not_below, if_neg h.not_above]
    rw [hpart]
    exact hratio.2 h.lost

/-- The bounds of a column, where they are doubles, are numbers. -/
structure NumberBounds (st : ColumnStats) : Prop where
  lower : ∀ x, st.min.bind Value.toDouble? = some x → x.isNaN = false
  upper : ∀ x, st.max.bind Value.toDouble? = some x → x.isNaN = false

theorem isNaN_of_toDouble? {vs : List Value} {x : Double}
    (hvs : ∀ x, Value.float x ∈ vs → x.isNaN = false)
    (hv : v ∈ vs) (hx : v.toDouble? = some x) : x.isNaN = false := by
  cases v with
  | int i =>
    obtain rfl := Option.some.inj hx
    exact Double.isNaN_ofInt _
  | float y =>
    obtain rfl := Option.some.inj hx
    exact hvs y hv
  | null | bool | text => simp [Value.toDouble?] at hx

/-- Statistics of values that are numbers have bounds that are numbers. -/
theorem numberBounds_ofValues {vs : List Value} (hvs : ∀ x, Value.float x ∈ vs → x.isNaN = false) :
    NumberBounds (.ofValues vs) := by
  have hmem : ∀ v ∈ ColumnStats.heads ((ColumnStats.present vs).mergeSort Value.atMost), v ∈ vs :=
    fun v hv => List.mem_of_mem_filter
      (List.mem_mergeSort.1 ((ColumnStats.heads_sublist _).subset hv))
  constructor
  · intro x hx
    obtain ⟨v, hv, hvx⟩ := Option.bind_eq_some_iff.1 hx
    exact isNaN_of_toDouble? hvs (hmem v (List.mem_of_head? hv)) hvx
  · intro x hx
    obtain ⟨v, hv, hvx⟩ := Option.bind_eq_some_iff.1 hx
    exact isNaN_of_toDouble? hvs (hmem v (List.mem_of_getLast? hv)) hvx

theorem rangeFraction?_cases (hst : NumberBounds st) (type : SqlType) (v : Value) (side : Side) :
    (rangeFraction? type st v side = none ∧ ¬Loses type st v side) ∨
      ∃ z, rangeFraction? type st v side = some z ∧ FractionUnless (Loses type st v side) z := by
  have hpart : ∀ {low high x}, Ranges type st v low high x →
      ((Double.toSingle (.ofFloat (side.part low.toFloat high.toFloat x.toFloat))).isNaN = true ↔
        Unplaced side low.toFloat high.toFloat x.toFloat) := by
    intro low high x h
    rw [Double.isNaN_toSingle, Double.isNaN_ofFloat]
    exact isNaN_part_iff (hst.lower low h.lower) (hst.upper high h.upper) h.apart
  cases hrange : rangeFraction? type st v side with
  | none =>
    refine .inl ⟨rfl, fun ⟨low, high, x, h, _⟩ => ?_⟩
    rw [rangeFraction?_eq_some_iff.2 ⟨low, high, x, h, rfl⟩] at hrange
    exact absurd hrange (Option.some_ne_none _)
  | some z =>
    refine .inr ⟨z, rfl, fun hkept => ?_, fun ⟨low, high, x, h, hlost⟩ => ?_⟩
    · obtain ⟨low, high, x, h, rfl⟩ := rangeFraction?_eq_some_iff.1 hrange
      apply Single.isFraction_clampUnit
      rw [Bool.eq_false_iff]
      exact fun hnan => hkept ⟨low, high, x, h, (hpart h).1 hnan⟩
    · rw [rangeFraction?_eq_some_iff.2 ⟨low, high, x, h, rfl⟩] at hrange
      obtain rfl := Option.some.inj hrange
      exact Single.isNaN_clampUnit ((hpart h).2 hlost)

section Estimates

variable (hfallback : IsFraction fallback)

include hfallback

theorem isFraction_equalsValue (st : ColumnStats) (v : Value) :
    IsFraction (equalsValue fallback st v) := by
  unfold equalsValue
  split
  · exact hfallback
  · dsimp only
    split_ifs with h
    · exact Single.isFraction_zero
    · exact Single.isFraction_reciprocal fun hn => h (by simp [hn])

theorem isFraction_columnColumn (op : Comparison) (c d : ColumnName) :
    IsFraction (columnColumn s stats fallback op c d) := by
  have hequal : IsFraction (columnColumn s stats fallback .eq c d) := by
    unfold columnColumn
    dsimp only
    split
    · split_ifs with h
      · exact Single.isFraction_zero
      · exact Single.isFraction_reciprocal h
    · exact hfallback
  cases op with
  | eq => exact hequal
  | ne => exact Single.isFraction_one_sub hequal
  | lt | le | gt | ge => exact hfallback

/-- A comparison that asks for a side of a range, and one that asks for its complement. -/
theorem fractionUnless_range (hst : NumberBounds st) (v : Value) (side : Side) :
    FractionUnless (Loses type st v side) ((rangeFraction? type st v side).getD fallback) ∧
      FractionUnless (Loses type st v side)
        (((rangeFraction? type st v side).map (1.0 - ·)).getD fallback) := by
  obtain ⟨hrange, hkept⟩ | ⟨z, hrange, hz⟩ := rangeFraction?_cases hst type v side <;>
    rw [hrange]
  -- a range that says nothing leaves the fallback
  · exact ⟨.of_not hkept hfallback, .of_not hkept hfallback⟩
  · exact ⟨hz, hz.one_sub⟩

end Estimates

theorem mem_of_column? {c : ColumnName} (h : column? s stats c = some (type, st)) : st ∈ stats := by
  unfold column? at h
  split at h
  · obtain ⟨st', hst, heq⟩ := Option.map_eq_some_iff.1 h
    obtain rfl := (Prod.mk.inj heq).2
    exact List.mem_of_getElem? hst
  · exact absurd h.symm (Option.some_ne_none _)

/-- A comparison of a column with a constant that is lost between the bounds of the column. -/
def LosesColumn (s : Schema) (stats : List ColumnStats) (op : Comparison) (c : ColumnName)
    (v : Value) : Prop :=
  ∃ type st side, column? s stats c = some (type, st) ∧ op.side? = some side ∧ Loses type st v side

theorem losesColumn_iff {op : Comparison} {c : ColumnName} (h : column? s stats c = some (type, st))
    (hside : op.side? = some side) : LosesColumn s stats op c v ↔ Loses type st v side := by
  constructor
  · rintro ⟨type', st', side', h', hside', hloses⟩
    obtain ⟨rfl, rfl⟩ := Prod.mk.inj (Option.some.inj (h.symm.trans h'))
    obtain rfl := Option.some.inj (hside.symm.trans hside')
    exact hloses
  · exact fun hloses => ⟨type, st, side, h, hside, hloses⟩

theorem fractionUnless_columnValue (hfallback : IsFraction fallback)
    (hstats : ∀ st ∈ stats, NumberBounds st) (op : Comparison) (c : ColumnName) (v : Value) :
    FractionUnless (LosesColumn s stats op c v) (columnValue s stats fallback op c v) := by
  unfold columnValue
  cases hcolumn : column? s stats c with
  | none =>
    refine .of_not ?_ hfallback
    rintro ⟨type, st, side, h, -, -⟩
    exact absurd (h.symm.trans hcolumn) (Option.some_ne_none _)
  | some info =>
    obtain ⟨type, st⟩ := info
    have hst := hstats st (mem_of_column? hcolumn)
    have hequal : op.side? = none → ¬LosesColumn s stats op c v := by
      rintro hnone ⟨-, -, side, -, hside, -⟩
      exact absurd (hside.symm.trans hnone) (Option.some_ne_none _)
    cases op with
    | eq => exact .of_not (hequal rfl) (isFraction_equalsValue hfallback st v)
    | ne =>
      exact .of_not (hequal rfl) (Single.isFraction_one_sub (isFraction_equalsValue hfallback st v))
    | le =>
      rw [losesColumn_iff hcolumn rfl]
      exact (fractionUnless_range hfallback hst v .atMost).1
    | gt =>
      rw [losesColumn_iff hcolumn rfl]
      exact (fractionUnless_range hfallback hst v .atMost).2
    | ge =>
      rw [losesColumn_iff hcolumn rfl]
      exact (fractionUnless_range hfallback hst v .atLeast).1
    | lt =>
      rw [losesColumn_iff hcolumn rfl]
      exact (fractionUnless_range hfallback hst v .atLeast).2

/-- A comparison somewhere under the connectives of a predicate loses its constant. -/
inductive Unmeasured (s : Schema) (stats : List ColumnStats) : Expr → Prop
  | term {op : Connective} {es : List Expr} {e : Expr} :
      e ∈ es → Unmeasured s stats e → Unmeasured s stats (.connect op es)
  | not {e : Expr} : Unmeasured s stats e → Unmeasured s stats (.not e)
  | right {op : Comparison} {c : ColumnName} {v : Value} :
      LosesColumn s stats op c v → Unmeasured s stats (.compare op (.column c) (.literal v))
  | left {op : Comparison} {c : ColumnName} {v : Value} :
      LosesColumn s stats op.flip c v → Unmeasured s stats (.compare op (.literal v) (.column c))

theorem unmeasured_connect_iff {op : Connective} {es : List Expr} :
    Unmeasured s stats (.connect op es) ↔ ∃ e ∈ es, Unmeasured s stats e :=
  ⟨fun | .term he h => ⟨_, he, h⟩, fun ⟨_, he, h⟩ => .term he h⟩

theorem unmeasured_not_iff {e : Expr} : Unmeasured s stats (.not e) ↔ Unmeasured s stats e :=
  ⟨fun | .not h => h, .not⟩

theorem unmeasured_right_iff {op : Comparison} {c : ColumnName} :
    Unmeasured s stats (.compare op (.column c) (.literal v)) ↔ LosesColumn s stats op c v :=
  ⟨fun | .right h => h, .right⟩

theorem unmeasured_left_iff {op : Comparison} {c : ColumnName} :
    Unmeasured s stats (.compare op (.literal v) (.column c)) ↔ LosesColumn s stats op.flip c v :=
  ⟨fun | .left h => h, .left⟩

theorem estimateAll_eq_map (es : List Expr) :
    estimateAll s stats fallback es = es.map (estimate s stats fallback) := by
  induction es with
  | nil => rw [estimateAll, List.map_nil]
  | cons e es ih => rw [estimateAll, List.map_cons, ih]

/-- The estimate of a tree is a fraction or, with a lost constant anywhere in it, no number. -/
theorem fractionUnless_estimate (hfallback : IsFraction fallback)
    (hstats : ∀ st ∈ stats, NumberBounds st) (e : Expr) :
    FractionUnless (Unmeasured s stats e) (estimate s stats fallback e) := by
  induction e using Expr.children_induction with
  | step e ih =>
    unfold estimate
    split
    · next es =>
      rw [estimateAll_eq_map, unmeasured_connect_iff]
      exact .product ih
    · next es =>
      rw [estimateAll_eq_map, List.map_map, unmeasured_connect_iff]
      exact (FractionUnless.product fun e he => (ih e he).one_sub).one_sub
    · next e =>
      rw [unmeasured_not_iff]
      exact (ih e (List.mem_singleton_self e)).one_sub
    · rw [unmeasured_right_iff]
      exact fractionUnless_columnValue hfallback hstats _ _ _
    · rw [unmeasured_left_iff]
      exact fractionUnless_columnValue hfallback hstats _ _ _
    · next op c d =>
      exact .of_not nofun (isFraction_columnColumn hfallback op c d)
    · next hand hor hnot hright hleft hcolumns =>
      -- any other expression has the fallback, and nothing below it is measured
      refine .of_not (fun h => ?_) hfallback
      cases h with
      | @term op es e he h =>
        cases op with
        | and => exact hand es rfl
        | or => exact hor es rfl
      | not h => exact hnot _ rfl
      | right h => exact hright _ _ _ rfl
      | left h => exact hleft _ _ _ rfl

end Selectivity

open Selectivity (Unmeasured NumberBounds)

/-- With statistics of numbers and a fallback of the unit interval, the estimated fraction of rows
is a number of the unit interval for just those trees in which no comparison loses its constant. -/
theorem Expr.selectivity_unit_iff {s : Schema} {stats : List ColumnStats} {fallback : Float32}
    (hstats : ∀ st ∈ stats, ∃ vs : List Value,
      st = .ofValues vs ∧ ∀ x, Value.float x ∈ vs → x.isNaN = false)
    (hfallback : 0.0 ≤ fallback ∧ fallback ≤ 1.0) (e : Expr) :
    (0.0 ≤ e.selectivity s stats fallback ∧ e.selectivity s stats fallback ≤ 1.0 ↔
        ¬Unmeasured s stats e) ∧
      (Unmeasured s stats e → (e.selectivity s stats fallback).isNaN = true) := by
  have hbounds : ∀ st ∈ stats, NumberBounds st := by
    intro st hst
    obtain ⟨vs, rfl, hvs⟩ := hstats st hst
    exact Selectivity.numberBounds_ofValues hvs
  have hclamped := (Selectivity.fractionUnless_estimate (s := s) hfallback hbounds e).clampUnit
  exact ⟨hclamped.isFraction_iff, hclamped.isNaN⟩

/-- Bounds that are finite but too far apart: the range has no length as a double, and the place of
the largest value in it is lost, together with the tree in which it is asked for. -/
theorem Expr.selectivity_unit_overflow :
    let low : Double := .ofFloat (-1.7e308)
    let high : Double := .ofFloat 1.7e308
    let s : Schema := ⟨[⟨"a", some "t", .double⟩]⟩
    let stats : List ColumnStats := [.ofValues [.float low, .float high]]
    let term (op : Comparison) : Expr :=
      .compare op (.column (.unqualified "a")) (.literal (.float high))
    (∀ st ∈ stats, ∃ vs : List Value,
      st = .ofValues vs ∧ ∀ x, Value.float x ∈ vs → x.isNaN = false) ∧
    (0.0 ≤ (0.25 : Float32) ∧ (0.25 : Float32) ≤ 1.0) ∧
    ¬Selectivity.Unmeasured s stats (.not (term .ne)) ∧
    (0.0 ≤ (Expr.not (term .ne)).selectivity s stats 0.25 ∧
      (Expr.not (term .ne)).selectivity s stats 0.25 ≤ 1.0) ∧
    Selectivity.Unmeasured s stats (.connect .and [term .ne, term .le]) ∧
    ((Expr.connect .and [term .ne, term .le]).selectivity s stats 0.25).isNaN = true := by
  intro low high s stats term
  have hstats : ∀ st ∈ stats, ∃ vs : List Value,
      st = .ofValues vs ∧ ∀ x, Value.float x ∈ vs → x.isNaN = false := by
    intro st hst
    refine ⟨_, List.mem_singleton.1 hst, fun x hx => ?_⟩
    rcases List.mem_pair.1 hx with hx | hx <;> obtain rfl := Value.float.inj hx <;> decide +kernel
  have hfallback : 0.0 ≤ (0.25 : Float32) ∧ (0.25 : Float32) ≤ 1.0 := by decide +kernel
  have hkept : ¬Selectivity.Unmeasured s stats (.not (term .ne)) := by
    rw [Selectivity.unmeasured_not_iff, Selectivity.unmeasured_right_iff]
    rintro ⟨-, -, side, -, hside, -⟩
    exact absurd hside.symm (Option.some_ne_none side)
  have hlost : Selectivity.Unmeasured s stats (.connect .and [term .ne, term .le]) := by
    have hsort : [Value.float low, .float high].mergeSort Value.atMost =
        [.float low, .float high] := List.mergeSort_of_pairwise (by decide +kernel)
    have hpresent : [Value.float low, .float high].filter (fun v => !v.isNull) =
        [.float low, .float high] := rfl
    have hbounds : ColumnStats.ofValues [.float low, .float high] =
        ⟨some (.float low), some (.float high), some 2, some 0⟩ := by
      simp only [ColumnStats.ofValues, hpresent, hsort]
      decide +kernel
    refine .term (List.mem_cons_of_mem _ List.mem_cons_self) (.right ?_)
    refine ⟨.double, _, .atMost, rfl, rfl, low, high, high, ?_, ?_⟩
    · rw [hbounds]
      exact ⟨rfl, rfl, rfl, rfl, by decide +kernel⟩
    · exact ⟨by decide +kernel, by decide +kernel, .inr (by decide +kernel)⟩
  exact ⟨hstats, hfallback, hkept, (Expr.selectivity_unit_iff hstats hfallback _).1.2 hkept, hlost,
    (Expr.selectivity_unit_iff hstats hfallback _).2 hlost⟩

end RelQuery
