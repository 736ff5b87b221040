import RelQuery.Proofs.ValueOrder

namespace RelQuery

namespace Value

variable {S : Set Value} {a b c : Value}

def directed (ascending : Bool) (a b : Value) : Ordering :=
  if ascending then a.order b else b.order a

theorem directed_swap (ascending : Bool) (a b : Value) :
    directed ascending b a = (directed ascending a b).swap := by
  cases ascending
  · exact order_swap b a
  · exact order_swap a b

theorem directed_trans (h : TransitiveOn S) (ascending : Bool) (ha : a ∈ S) (hb : b ∈ S)
    (hc : c ∈ S) (hab : (directed ascending a b).isLE) (hbc : (directed ascending b c).isLE) :
    (directed ascending a c).isLE := by
  cases ascending
  · exact h c hc b hb a ha hbc hab
  · exact h a ha b hb c hc hab hbc

theorem directed_eq_of_tie (h : TransitiveOn S) (ascending : Bool) (ha : a ∈ S) (hb : b ∈ S)
    (hc : c ∈ S) (hab : (directed ascending a b).isLE) (hbc : (directed ascending b c).isLE)
    (hac : directed ascending a c = .eq) :
    directed ascending a b = .eq ∧ directed ascending b c = .eq := by
  have hca : (directed ascending c a).isLE := by
    rw [directed_swap ascending a c, hac]
    rfl
  have hba : (directed ascending b a).isLE := directed_trans h ascending hb hc ha hbc hca
  have hcb : (directed ascending c b).isLE := directed_trans h ascending hc ha hb hca hab
  rw [directed_swap ascending a b] at hba
  rw [directed_swap ascending b c] at hcb
  constructor
  · cases heq : directed ascending a b <;> simp_all
  · cases heq : directed ascending b c <;> simp_all

end Value

namespace Row

variable {flags : List Bool} {k l m : Row}

theorem order_cons (asc : Bool) (flags : List Bool) (a b : Value) (k l : Row) :
    order (asc :: flags) (a :: k) (b :: l) = (Value.directed asc a b).then (order flags k l) := rfl

theorem order_swap (flags : List Bool) (k l : Row) : order flags l k = (order flags k l).swap := by
  induction flags generalizing k l with
  | nil => rfl
  | cons asc flags ih =>
    cases k with
    | nil => cases l <;> rfl
    | cons a k =>
      cases l with
      | nil => rfl
      | cons b l =>
        rw [order_cons, order_cons, Value.directed_swap asc a b, ih k l, Ordering.swap_then]

theorem order_total (flags : List Bool) (k l : Row) :
    (order flags k l).isLE || (order flags l k).isLE := by
  rw [order_swap flags k l]
  cases order flags k l <;> rfl

theorem isLE_then {o p : Ordering} : (o.then p).isLE ↔ o.isLE ∧ (o = .eq → p.isLE) := by
  cases o <;> simp

/-- Keys of one length whose columns hold values in order. -/
structure Comparable (n : Nat) (K : Set Row) : Prop where
  length_eq : ∀ k ∈ K, k.length = n
  transitiveOn : ∀ i : Nat, Value.TransitiveOn {v | ∃ k ∈ K, k[i]? = some v}

theorem order_trans_of_columns (hk : k.length = flags.length) (hl : l.length = flags.length)
    (hm : m.length = flags.length)
    (h : ∀ i : Nat, Value.TransitiveOn {v | k[i]? = some v ∨ l[i]? = some v ∨ m[i]? = some v})
    (hkl : (order flags k l).isLE) (hlm : (order flags l m).isLE) : (order flags k m).isLE := by
  induction flags generalizing k l m with
  | nil => rfl
  | cons asc flags ih =>
    obtain ⟨a, k, rfl⟩ := List.exists_cons_of_length_eq_add_one hk
    obtain ⟨b, l, rfl⟩ := List.exists_cons_of_length_eq_add_one hl
    obtain ⟨c, m, rfl⟩ := List.exists_cons_of_length_eq_add_one hm
    rw [order_cons] at hkl hlm ⊢
    have hhead : Value.TransitiveOn {v | v = a ∨ v = b ∨ v = c} :=
      (h 0).mono (by rintro v (rfl | rfl | rfl) <;> simp)
    obtain ⟨hab, hkl⟩ := isLE_then.1 hkl
    obtain ⟨hbc, hlm⟩ := isLE_then.1 hlm
    refine isLE_then.2 ⟨Value.directed_trans hhead asc (.inl rfl) (.inr (.inl rfl))
      (.inr (.inr rfl)) hab hbc, fun hac => ?_⟩
    obtain ⟨htie, htie'⟩ := Value.directed_eq_of_tie hhead asc (.inl rfl) (.inr (.inl rfl))
      (.inr (.inr rfl)) hab hbc hac
    exact ih (Nat.succ.inj hk) (Nat.succ.inj hl) (Nat.succ.inj hm) (fun i => h (i + 1)) (hkl htie)
      (hlm htie')

theorem order_trans {K : Set Row} (h : Comparable flags.length K) (hk : k ∈ K) (hl : l ∈ K)
    (hm : m ∈ K) (hkl : (order flags k l).isLE) (hlm : (order flags l m).isLE) :
    (order flags k m).isLE := by
  refine order_trans_of_columns (h.length_eq k hk) (h.length_eq l hl) (h.length_eq m hm)
    (fun i => (h.transitiveOn i).mono ?_) hkl hlm
  rintro v (hv | hv | hv)
  · exact ⟨k, hk, hv⟩
  · exact ⟨l, hl, hv⟩
  · exact ⟨m, hm, hv⟩

end Row

end RelQuery
