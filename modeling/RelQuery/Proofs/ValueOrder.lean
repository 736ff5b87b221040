import RelQuery.Proofs.Rounding

namespace RelQuery

namespace Double

theorem compare?_of_place? {x y : Double} {p q : Int} (hx : place? x = some p)
    (hy : place? y = some q) : compare? x y = some (compare p q) := by
  rw [compare?, hx, hy]

theorem compare?_swap (x y : Double) : compare? y x = (compare? x y).map Ordering.swap := by
  unfold compare?
  cases place? x <;> cases place? y <;> try rfl
  exact congrArg some Std.OrientedCmp.eq_swap

theorem natAbs_lt (i : Int64) : i.toInt.natAbs < 2 ^ 64 := by
  have hlow := i.le_toInt
  have hhigh := i.toInt_lt
  omega

theorem place?_ofInt64 (i : Int64) : place? (ofInt i.toInt) = some (place i.toInt) :=
  place?_ofInt (natAbs_lt i)

end Double

namespace Value

open Double (place place?)

variable {a b c : Value} {i j : Int64} {x y : Double}

theorem order_of_compare? {o : Ordering} (h : compare? a b = some o) : order a b = o := by
  cases a <;> cases b <;> simp_all [order, compare?]

theorem compare?_swap (a b : Value) : compare? b a = (compare? a b).map Ordering.swap := by
  cases a <;> cases b <;> try rfl
  case bool.bool => exact congrArg some Std.OrientedCmp.eq_swap
  case int.int => exact congrArg some Std.OrientedCmp.eq_swap
  case text.text => exact congrArg some Std.OrientedCmp.eq_swap
  all_goals exact Double.compare?_swap _ _

theorem order_swap (a b : Value) : order b a = (order a b).swap := by
  have hname : ∀ s t : String, compare t s = (compare s t).swap := fun s t =>
    Std.OrientedCmp.eq_swap
  cases a <;> cases b <;> try rfl
  all_goals
    simp only [order]
    rw [compare?_swap, hname]
    cases compare? _ _ <;> rfl

theorem order_self (a : Value) : order a a = .eq := by
  cases a with
  | null => rfl
  | bool b => exact Std.ReflOrd.compare_self (a := b)
  | int i => exact Std.ReflOrd.compare_self (a := i.toInt)
  | text s => exact Std.ReflOrd.compare_self (a := s)
  | float x =>
    simp only [order, compare?, Double.compare?]
    cases place? x with
    | none => exact Std.ReflOrd.compare_self (a := "DOUBLE")
    | some p => exact Std.ReflOrd.compare_self (a := p)

theorem atMost_total (a b : Value) : atMost a b || atMost b a := by
  rw [atMost, atMost, order_swap a b]
  cases order a b <;> rfl

theorem order_null (a : Value) : order null a = if a = null then .eq else .lt := by
  cases a <;> rfl

/-- The kinds of values, in their order; integers and doubles are one kind. -/
def kind : Value → Nat
  | null => 0
  | bool _ => 1
  | int _ | float _ => 2
  | text _ => 3

theorem order_of_kind_lt (h : a.kind < b.kind) : order a b = .lt := by
  -- The names of the kinds are in the same order.
  have hnames : compare "BOOLEAN" "DOUBLE" = .lt ∧ compare "BOOLEAN" "INTEGER" = .lt ∧
      compare "BOOLEAN" "VARCHAR" = .lt ∧ compare "DOUBLE" "VARCHAR" = .lt ∧
      compare "INTEGER" "VARCHAR" = .lt := by decide
  cases a <;> cases b <;> simp [kind] at h <;> simp [order, compare?, typeName, hnames]

theorem atMost_of_kind_lt (h : a.kind < b.kind) : atMost a b := by
  rw [atMost, order_of_kind_lt h]
  rfl

theorem kind_le_of_atMost (h : atMost a b) : a.kind ≤ b.kind := by
  by_contra hlt
  rw [atMost, order_swap, order_of_kind_lt (Nat.lt_of_not_le hlt)] at h
  exact Bool.false_ne_true h

theorem atMost_int_int : atMost (int i) (int j) ↔ i.toInt ≤ j.toInt :=
  Int.isLE_compare

theorem atMost_int_float :
    atMost (int i) (float y) ↔ ∃ q, place? y = some q ∧ place i.toInt ≤ q := by
  simp only [atMost, order, compare?, Double.compare?, Double.place?_ofInt64]
  cases place? y <;> simp [typeName, Int.isLE_compare]
  decide

theorem atMost_float_int :
    atMost (float x) (int j) ↔ ∀ p, place? x = some p → p ≤ place j.toInt := by
  simp only [atMost, order, compare?, Double.compare?, Double.place?_ofInt64]
  cases place? x <;> simp [typeName, Int.isLE_compare]
  decide

theorem atMost_float_float :
    atMost (float x) (float y) ↔ ∀ p q, place? x = some p → place? y = some q → p ≤ q := by
  simp only [atMost, order, compare?, Double.compare?]
  cases place? x <;> cases place? y <;> simp [typeName, Int.isLE_compare]

/-- The order of sorting is transitive on a set of values. -/
def TransitiveOn (S : Set Value) : Prop :=
  ∀ a ∈ S, ∀ b ∈ S, ∀ c ∈ S, atMost a b → atMost b c → atMost a c

theorem TransitiveOn.mono {S T : Set Value} (h : TransitiveOn T) (hST : S ⊆ T) : TransitiveOn S :=
  fun a ha b hb c hc => h a (hST ha) b (hST hb) c (hST hc)

/-- What it takes for the order of sorting to be transitive. -/
structure Orderly (S : Set Value) : Prop where
  /-- No double of the set equals two of its integers. -/
  apart : ∀ {x i j}, float x ∈ S → int i ∈ S → int j ∈ S → compare? (int i) (float x) = some .eq →
    compare? (int j) (float x) = some .eq → i = j
  /-- Beside what is not a number, all numbers among the doubles are equal... -/
  single : ∀ {n x y}, float n ∈ S → place? n = none → float x ∈ S → float y ∈ S →
    (place? x).isSome → (place? y).isSome → compare? (float x) (float y) = some .eq
  /-- ... and before all integers. -/
  before : ∀ {n x i}, float n ∈ S → place? n = none → float x ∈ S → int i ∈ S →
    (place? x).isSome → compare? (float x) (int i) = some .lt

theorem compare?_int_float {q : Int} (hy : place? y = some q) :
    compare? (int i) (float y) = some (compare (place i.toInt) q) :=
  Double.compare?_of_place? (Double.place?_ofInt64 i) hy

theorem compare?_float_int {p : Int} (hx : place? x = some p) :
    compare? (float x) (int j) = some (compare p (place j.toInt)) :=
  Double.compare?_of_place? hx (Double.place?_ofInt64 j)

theorem compare?_float_float {p q : Int} (hx : place? x = some p) (hy : place? y = some q) :
    compare? (float x) (float y) = some (compare p q) :=
  Double.compare?_of_place? hx hy

variable {S : Set Value} {n : Double}

theorem atMost_of_compare?_eq (h : compare? a b = some .eq) : atMost a b ∧ atMost b a := by
  have hab := order_of_compare? h
  rw [atMost, atMost, order_swap a b, hab]
  exact ⟨rfl, rfl⟩

theorem Orderly.apart_of_transitiveOn (h : TransitiveOn S) (hx : float x ∈ S) (hi : int i ∈ S)
    (hj : int j ∈ S) (hix : compare? (int i) (float x) = some .eq)
    (hjx : compare? (int j) (float x) = some .eq) : i = j := by
  obtain ⟨hileft, hiright⟩ := atMost_of_compare?_eq hix
  obtain ⟨hjleft, hjright⟩ := atMost_of_compare?_eq hjx
  have hij := atMost_int_int.1 (h _ hi _ hx _ hj hileft hjright)
  have hji := atMost_int_int.1 (h _ hj _ hx _ hi hjleft hiright)
  exact Int64.toInt_inj.1 (hij.antisymm hji)

theorem atMost_notANumber (hn : place? n = none) : atMost (float x) (float n) := by
  rw [atMost_float_float]
  intro p q _ hq
  simp [hn] at hq

theorem notANumber_atMost (hn : place? n = none) (hb : b.kind = 2) : atMost (float n) b := by
  cases b <;> simp [kind] at hb
  · rw [atMost_float_int]
    simp [hn]
  · rw [atMost_float_float]
    simp [hn]

theorem Orderly.of_transitiveOn (h : TransitiveOn S) : Orderly S where
  apart := Orderly.apart_of_transitiveOn h
  single := by
    intro n x y hnS hn hxS hyS hx hy
    obtain ⟨p, hx⟩ := Option.isSome_iff_exists.1 hx
    obtain ⟨q, hy⟩ := Option.isSome_iff_exists.1 hy
    have hxy := h _ hxS _ hnS _ hyS (atMost_notANumber hn) (notANumber_atMost hn rfl)
    have hyx := h _ hyS _ hnS _ hxS (atMost_notANumber hn) (notANumber_atMost hn rfl)
    have hpq : p ≤ q := atMost_float_float.1 hxy p q hx hy
    have hqp : q ≤ p := atMost_float_float.1 hyx q p hy hx
    rw [compare?_float_float hx hy, compare_eq_iff_eq.2 (hpq.antisymm hqp)]
  before := by
    intro n x i hnS hn hxS hiS hx
    obtain ⟨p, hx⟩ := Option.isSome_iff_exists.1 hx
    rw [compare?_float_int hx, compare_lt_iff_lt.2]
    by_contra hle
    have hix : atMost (int i) (float x) := atMost_int_float.2 ⟨p, hx, not_lt.1 hle⟩
    obtain ⟨q, hq, -⟩ := atMost_int_float.1 (h _ hiS _ hxS _ hnS hix (atMost_notANumber hn))
    simp [hn] at hq

theorem Orderly.le_of_notANumber (h : Orderly S) {p q : Int} (hnS : float n ∈ S)
    (hn : place? n = none) (hxS : float x ∈ S) (hyS : float y ∈ S) (hx : place? x = some p)
    (hy : place? y = some q) : p ≤ q := by
  have hxy := h.single hnS hn hxS hyS (Option.isSome_of_eq_some hx) (Option.isSome_of_eq_some hy)
  rw [compare?_float_float hx hy] at hxy
  exact (compare_eq_iff_eq.1 (Option.some.inj hxy)).le

theorem Orderly.lt_of_notANumber (h : Orderly S) {p : Int} (hnS : float n ∈ S)
    (hn : place? n = none) (hxS : float x ∈ S) (hiS : int i ∈ S) (hx : place? x = some p) :
    p < place i.toInt := by
  have hxi := h.before hnS hn hxS hiS (Option.isSome_of_eq_some hx)
  rw [compare?_float_int hx] at hxi
  exact compare_lt_iff_lt.1 (Option.some.inj hxi)

theorem Orderly.int_float_int (h : Orderly S) (hiS : int i ∈ S) (hxS : float x ∈ S)
    (hjS : int j ∈ S) (hix : atMost (int i) (float x)) (hxj : atMost (float x) (int j)) :
    atMost (int i) (int j) := by
  obtain ⟨p, hx, hip⟩ := atMost_int_float.1 hix
  have hpj := atMost_float_int.1 hxj p hx
  rw [atMost_int_int]
  by_contra hlt
  have hji : place j.toInt ≤ place i.toInt := Double.place_mono (by omega)
  have hi : place i.toInt = p := by omega
  have hj : place j.toInt = p := by omega
  have heq := h.apart hxS hiS hjS (by rw [compare?_int_float hx, compare_eq_iff_eq.2 hi])
    (by rw [compare?_int_float hx, compare_eq_iff_eq.2 hj])
  exact hlt (heq ▸ le_refl _)

theorem Orderly.number_trans (h : Orderly S) (ha : a ∈ S) (hb : b ∈ S) (hc : c ∈ S)
    (hka : a.kind = 2) (hkb : b.kind = 2) (hkc : c.kind = 2) (hab : atMost a b)
    (hbc : atMost b c) : atMost a c := by
  cases a <;> cases b <;> cases c <;> simp [kind] at hka hkb hkc
  case int.int.int =>
    rw [atMost_int_int] at *
    exact hab.trans hbc
  case int.int.float =>
    obtain ⟨q, hq, hle⟩ := atMost_int_float.1 hbc
    exact atMost_int_float.2 ⟨q, hq, (Double.place_mono (atMost_int_int.1 hab)).trans hle⟩
  case int.float.int => exact h.int_float_int ha hb hc hab hbc
  case int.float.float i x y =>
    obtain ⟨p, hp, hle⟩ := atMost_int_float.1 hab
    cases hy : place? y with
    | none => exact absurd (h.lt_of_notANumber hc hy hb ha hp) (not_lt.2 hle)
    | some q => exact atMost_int_float.2 ⟨q, hy, hle.trans (atMost_float_float.1 hbc p q hp hy)⟩
  case float.int.int =>
    rw [atMost_float_int] at *
    intro p hp
    exact (hab p hp).trans (Double.place_mono (atMost_int_int.1 hbc))
  case float.int.float =>
    obtain ⟨q, hq, hle⟩ := atMost_int_float.1 hbc
    rw [atMost_float_float]
    intro p r hp hr
    obtain rfl := Option.some.inj (hq.symm.trans hr)
    exact (atMost_float_int.1 hab p hp).trans hle
  case float.float.int x y j =>
    rw [atMost_float_int]
    intro p hp
    cases hy : place? y with
    | none => exact (h.lt_of_notANumber hb hy ha hc hp).le
    | some q => exact (atMost_float_float.1 hab p q hp hy).trans (atMost_float_int.1 hbc q hy)
  case float.float.float x y z =>
    rw [atMost_float_float]
    intro p r hp hr
    cases hy : place? y with
    | none => exact h.le_of_notANumber hb hy ha hc hp hr
    | some q =>
      exact (atMost_float_float.1 hab p q hp hy).trans (atMost_float_float.1 hbc q r hy hr)

theorem Orderly.transitiveOn (h : Orderly S) : TransitiveOn S := by
  intro a ha b hb c hc hab hbc
  have hkab := kind_le_of_atMost hab
  have hkbc := kind_le_of_atMost hbc
  by_cases hlt : a.kind < c.kind
  · exact atMost_of_kind_lt hlt
  have hsame : a.kind = b.kind ∧ b.kind = c.kind := by omega
  by_cases hnumber : b.kind = 2
  · exact h.number_trans ha hb hc (hsame.1.trans hnumber) hnumber (hsame.2 ▸ hnumber) hab hbc
  cases a <;> cases b <;> cases c <;> simp [kind] at hsame hnumber
  case null.null.null => rfl
  case bool.bool.bool p q r =>
    have hpq : (compare p q).isLE := hab
    have hqr : (compare q r).isLE := hbc
    have hpr : (compare p r).isLE := Std.TransCmp.isLE_trans hpq hqr
    exact hpr
  case text.text.text s t u =>
    have hst : (compare s t).isLE := hab
    have htu : (compare t u).isLE := hbc
    have hsu : (compare s u).isLE := Std.TransCmp.isLE_trans hst htu
    exact hsu

theorem transitiveOn_of_exact (hfloat : ∀ x, float x ∈ S → (place? x).isSome)
    (hint : ∀ i : Int64, int i ∈ S → -2 ^ 53 ≤ i.toInt ∧ i.toInt ≤ 2 ^ 53) : TransitiveOn S := by
  have hnumber : ∀ n, float n ∈ S → place? n ≠ none := fun n hnS hn => by
    simpa [hn] using hfloat n hnS
  have hle : ∀ {x i j}, float x ∈ S → int i ∈ S → int j ∈ S →
      compare? (int i) (float x) = some .eq → compare? (int j) (float x) = some .eq →
      i.toInt ≤ j.toInt := by
    intro x i j hx hi hj hix hjx
    obtain ⟨p, hp⟩ := Option.isSome_iff_exists.1 (hfloat x hx)
    rw [compare?_int_float hp] at hix hjx
    have hip := compare_eq_iff_eq.1 (Option.some.inj hix)
    have hjp := compare_eq_iff_eq.1 (Option.some.inj hjx)
    by_contra hlt
    exact (Double.place_lt (not_le.1 hlt) (hint j hj).1 (hint i hi).2).ne (hjp.trans hip.symm)
  apply Orderly.transitiveOn
  exact {
    apart := fun hx hi hj hix hjx =>
      Int64.toInt_inj.1 ((hle hx hi hj hix hjx).antisymm (hle hx hj hi hjx hix))
    single := fun hnS hn => absurd hn (hnumber _ hnS)
    before := fun hnS hn => absurd hn (hnumber _ hnS) }

/-- What the order of sorting is: reflexive and antisymmetric up to ties, with NULL first, and in
agreement with the comparisons of SQL; it is transitive on the orderly sets of values exactly. -/
theorem order_laws (S : Set Value) :
    (∀ a, order a a = .eq) ∧ (∀ a b, order b a = (order a b).swap) ∧
      (∀ a, order null a = if a = null then .eq else .lt) ∧
      (∀ a b o, compare? a b = some o → order a b = o) ∧ (TransitiveOn S ↔ Orderly S) :=
  ⟨order_self, order_swap, order_null, fun _ _ _ => order_of_compare?,
    .of_transitiveOn, Orderly.transitiveOn⟩

/-- The integer `2 ^ 53 + 1` is rounded to the double `2 ^ 53`, and so ties with it, as does the
smaller integer `2 ^ 53`; what is not a number ties with doubles that do not tie. -/
theorem order_laws_rounded :
    ¬TransitiveOn {int 9007199254740993, float (.ofBits 0x4340000000000000), int 9007199254740992} ∧
      ¬TransitiveOn {float (.ofBits 0x7ff8000000000000), float (.ofBits 0x3ff0000000000000),
        float (.ofBits 0x4000000000000000)} := by
  constructor
  · rw [(order_laws _).2.2.2.2]
    intro h
    have heq := h.apart (x := .ofBits 0x4340000000000000) (i := 9007199254740993)
      (j := 9007199254740992) (by simp) (by simp) (by simp) (by decide +kernel) (by decide +kernel)
    exact absurd heq (by decide)
  · rw [(order_laws _).2.2.2.2]
    intro h
    have heq := h.single (n := .ofBits 0x7ff8000000000000) (x := .ofBits 0x3ff0000000000000)
      (y := .ofBits 0x4000000000000000) (by simp) (by decide +kernel) (by simp) (by simp)
      (by decide +kernel) (by decide +kernel)
    exact absurd heq (by decide +kernel)

end Value

end RelQuery
