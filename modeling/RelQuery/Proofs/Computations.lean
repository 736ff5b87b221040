import Mathlib.Data.List.Forall2
import RelQuery.Error

namespace RelQuery

variable {α β γ δ ε : Type} {f : α → Except ε β} {as : List α}

namespace Except

theorem bind_eq_ok {x : Except ε α} {b : β} :
    (x >>= f) = .ok b ↔ ∃ a, x = .ok a ∧ f a = .ok b := by
  cases x with
  | error e => simp [bind, Except.bind]
  | ok a => simp [bind, Except.bind]

theorem throw_bind_ne_ok (e : ε) (f : α → Except ε β) (b : β) : (throw e >>= f) ≠ .ok b := by
  simp [throw, throwThe, MonadExceptOf.throw, bind, Except.bind]

theorem map_eq_ok {g : α → β} {x : Except ε α} {b : β} :
    x.map g = .ok b ↔ ∃ a, x = .ok a ∧ g a = b := by
  cases x with
  | error e => simp [Except.map]
  | ok a => simp [Except.map]

/-- The results of a list are one of its first element, and those of the rest. -/
theorem mapM_cons_eq_ok {a : α} {bs : List β} : (a :: as).mapM f = .ok bs ↔
    ∃ b, f a = .ok b ∧ ∃ bs', as.mapM f = .ok bs' ∧ b :: bs' = bs := by
  simp only [List.mapM_cons, bind_eq_ok, pure, Except.pure, Except.ok.injEq]

theorem mapM_ok {g : α → β} (h : ∀ a ∈ as, f a = .ok (g a)) : as.mapM f = .ok (as.map g) := by
  induction as with
  | nil => rfl
  | cons a as ih =>
    rw [List.mapM_cons, h a List.mem_cons_self, ih fun b hb => h b (List.mem_cons_of_mem _ hb)]
    rfl

theorem exists_of_mapM [Inhabited β] {bs : List β} (h : as.mapM f = .ok bs) :
    ∃ g : α → β, (∀ a ∈ as, f a = .ok (g a)) ∧ bs = as.map g := by
  have hall : ∀ a ∈ as, f a = .ok ((f a).toOption.getD default) := by
    induction as generalizing bs with
    | nil => exact fun a ha => absurd ha List.not_mem_nil
    | cons a as ih =>
      obtain ⟨b, hb, bs', hbs', -⟩ := mapM_cons_eq_ok.1 h
      refine List.forall_mem_cons.2 ⟨?_, ih hbs'⟩
      rw [hb]
      rfl
  exact ⟨_, hall, Except.ok.inj (h.symm.trans (mapM_ok hall))⟩

theorem mapM_of_map_eq {g : γ → Except δ β} {k : δ → ε} {cs : List γ} {bs : List β}
    (h : as.map f = cs.map fun c => (g c).mapError k) (hg : cs.mapM g = .ok bs) :
    as.mapM f = .ok bs := by
  induction cs generalizing as bs with
  | nil =>
    rw [List.map_nil, List.map_eq_nil_iff] at h
    obtain rfl := Except.ok.inj hg
    rw [h]
    rfl
  | cons c cs ih =>
    obtain ⟨a, as, rfl, ha, has⟩ := List.map_eq_cons_iff.1 h
    obtain ⟨b, hb, bs, hbs, rfl⟩ := mapM_cons_eq_ok.1 hg
    have hab : f a = .ok b := by
      rw [ha]
      dsimp only
      rw [hb]
      rfl
    rw [List.mapM_cons, hab, ih has hbs]
    rfl

/-- A list that is computed element by element has a result for each of them. -/
theorem forall₂_of_mapM {bs : List β} (h : as.mapM f = .ok bs) :
    List.Forall₂ (fun a b => f a = .ok b) as bs := by
  induction as generalizing bs with
  | nil =>
    obtain rfl := Except.ok.inj h
    exact .nil
  | cons a as ih =>
    obtain ⟨b, hb, bs, hbs, rfl⟩ := mapM_cons_eq_ok.1 h
    exact .cons hb (ih hbs)

theorem length_of_mapM {bs : List β} (h : as.mapM f = .ok bs) : bs.length = as.length :=
  (forall₂_of_mapM h).length_eq.symm

/-- What stands in a computed list comes of what stands there in the given one. -/
theorem getElem?_of_mapM {bs : List β} (h : as.mapM f = .ok bs) {i : Nat} {a : α}
    (ha : as[i]? = some a) : ∃ b, bs[i]? = some b ∧ f a = .ok b := by
  obtain ⟨hi, rfl⟩ := List.getElem?_eq_some_iff.1 ha
  have hlt : i < bs.length := length_of_mapM h ▸ hi
  exact ⟨bs[i], List.getElem?_eq_getElem hlt, (forall₂_of_mapM h).get hi hlt⟩

theorem exists_of_mem_mapM {bs : List β} (h : as.mapM f = .ok bs) {a : α} (ha : a ∈ as) :
    ∃ b, f a = .ok b := by
  obtain ⟨i, hi⟩ := List.mem_iff_getElem?.1 ha
  obtain ⟨b, -, hb⟩ := getElem?_of_mapM h hi
  exact ⟨b, hb⟩

/-- A result is of one kind, and an error is of another. -/
def Meets (P : β → Prop) (Q : ε → Prop) : Except ε β → Prop
  | .ok b => P b
  | .error e => Q e

section Meets

variable {P P' : β → Prop} {R : α → Prop} {Q Q' : ε → Prop} {x : Except ε α}

theorem meets_any (x : Except ε β) : Meets (fun _ => True) (fun _ => True) x := by
  cases x <;> trivial

theorem Meets.imp {x : Except ε β} (h : Meets P Q x) (hP : ∀ b, P b → P' b)
    (hQ : ∀ e, Q e → Q' e) : Meets P' Q' x := by
  cases x with
  | error e => exact hQ e h
  | ok b => exact hP b h

theorem Meets.bind {g : α → Except ε β} (hx : Meets R Q x) (hg : ∀ a, R a → Meets P Q (g a)) :
    Meets P Q (x >>= g) := by
  cases x with
  | error e => exact hx
  | ok a => exact hg a hx

theorem Meets.map {g : α → β} (hx : Meets R Q x) (hg : ∀ a, R a → P (g a)) :
    Meets P Q (x.map g) := by
  cases x with
  | error e => exact hx
  | ok a => exact hg a hx

theorem Meets.mapError {k : ε → δ} {S : δ → Prop} (hx : Meets R Q x) (hk : ∀ e, Q e → S (k e)) :
    Meets R S (x.mapError k) := by
  cases x with
  | error e => exact hk e hx
  | ok a => exact hx

/-- Where all elements have results of a kind, so does the list, one for each. -/
theorem meets_mapM (h : ∀ a ∈ as, Meets P Q (f a)) :
    Meets (fun bs => bs.length = as.length ∧ ∀ b ∈ bs, P b) Q (as.mapM f) := by
  induction as with
  | nil => exact ⟨rfl, fun b hb => absurd hb List.not_mem_nil⟩
  | cons a as ih =>
    rw [List.mapM_cons]
    refine (h a List.mem_cons_self).bind fun b hb => ?_
    refine (ih fun c hc => h c (List.mem_cons_of_mem a hc)).bind fun bs hbs => ?_
    exact ⟨congrArg (· + 1) hbs.1, List.forall_mem_cons.2 ⟨hb, hbs.2⟩⟩

/-- What each result has to do with an element of another list, the list of results has with
that. -/
theorem meets_mapM_of_forall₂ {S : γ → β → Prop} {cs : List γ}
    (h : List.Forall₂ (fun a c => Meets (S c) Q (f a)) as cs) :
    Meets (List.Forall₂ S cs) Q (as.mapM f) := by
  induction h with
  | nil => exact .nil
  | cons ha _ ih =>
    rw [List.mapM_cons]
    exact ha.bind fun b hb => ih.bind fun bs hbs => .cons hb hbs

end Meets

end Except

end RelQuery
