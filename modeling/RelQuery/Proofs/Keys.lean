import Mathlib.Tactic
import RelQuery.Query.Groups

namespace RelQuery

theorem bigEndian_injective {m n : UInt64} (h : bigEndian m = bigEndian n) : m = n := by
  have hbytes := congrArg (List.map UInt8.toNat) h
  simp only [bigEndian, List.map_cons, List.map_nil, List.cons.injEq, and_true,
    UInt64.toNat_toUInt8, UInt64.toNat_shiftRight, UInt64.toNat_ofNat, Nat.reduceMod, Nat.reducePow,
    Nat.shiftRight_eq_div_pow] at hbytes
  have hm := m.toNat_lt
  have hn := n.toNat_lt
  apply UInt64.toNat.inj
  omega

theorem bigEndian_append_inj {m n : UInt64} {xs ys : List UInt8}
    (h : bigEndian m ++ xs = bigEndian n ++ ys) : m = n ∧ xs = ys := by
  obtain ⟨hbytes, hrest⟩ := List.append_inj h rfl
  exact ⟨bigEndian_injective hbytes, hrest⟩

theorem utf8_append_inj {s t : String} {xs ys : List UInt8}
    (hsize : s.utf8ByteSize = t.utf8ByteSize)
    (h : s.toByteArray.data.toList ++ xs = t.toByteArray.data.toList ++ ys) : s = t ∧ xs = ys := by
  obtain ⟨hbytes, hrest⟩ := List.append_inj h hsize
  have harray : s.toByteArray = t.toByteArray := by
    apply ByteArray.ext
    exact Array.toList_inj.1 hbytes
  exact ⟨String.toByteArray_inj.1 harray, hrest⟩

namespace Double

variable {x y : Double}

theorem bits_inj : x.bits = y.bits ↔ x = y := by
  cases x
  cases y
  rw [Double.ofBits.injEq]

def IsZero (x : Double) : Prop := x.bits = 0 ∨ x.bits = 0x8000000000000000

theorem isZero_iff : x.isZero = true ↔ x.IsZero := by
  have hbits : x.IsZero ↔ x.bits.toNat = 0 ∨ x.bits.toNat = 2 ^ 63 := by
    rw [IsZero, ← UInt64.toNat_inj, ← UInt64.toNat_inj]
    rfl
  have hlt := x.bits.toNat_lt
  have hsign : signBit = 2 ^ 63 := by decide
  rw [hbits, isZero, place?, hsign, beq_iff_eq]
  split
  · rw [Option.some.injEq]
    split <;> omega
  · exact iff_of_false (Option.some_ne_none _).symm (by omega)

theorem unsigned_eq_iff : x.unsigned = y.unsigned ↔ x.bits = y.bits ∨ (x.IsZero ∧ y.IsZero) := by
  have hzero : ∀ z : Double, ¬z.IsZero → z ≠ .ofBits 0 := by
    rintro z hz rfl
    exact hz (.inl rfl)
  have hsame : x = y → (x.IsZero ↔ y.IsZero) := fun h => by rw [h]
  rw [bits_inj, unsigned, unsigned]
  split <;> split <;> grind [isZero_iff]

end Double

namespace Value

variable {v w : Value} {xs ys : List UInt8}

/-- Texts have as many bytes as a number of 64 bits can count, as all have that a memory holds. -/
def Sized : Value → Prop
  | text s => s.utf8ByteSize < UInt64.size
  | _ => True

instance (v : Value) : Decidable v.Sized := by
  cases v <;> unfold Sized <;> infer_instance

/-- Equal in a key: of one kind and equal, where doubles have the same bits, and both zeros are one
double. -/
def Agrees : Value → Value → Prop
  | null, null => True
  | bool a, bool b => a = b
  | int i, int j => i = j
  | float x, float y => x.bits = y.bits ∨ (x.IsZero ∧ y.IsZero)
  | text s, text t => s = t
  | _, _ => False

def tag : Value → UInt8
  | null => 0
  | bool _ => 1
  | int _ => 2
  | float _ => 3
  | text _ => 4

theorem field_eq_cons (v : Value) : ∃ bs, v.field = v.tag :: bs := by
  cases v <;> exact ⟨_, rfl⟩

theorem agrees_of_append (hv : v.Sized) (hw : w.Sized) (h : v.field ++ xs = w.field ++ ys) :
    v.Agrees w ∧ xs = ys := by
  have htag : v.tag = w.tag := by
    obtain ⟨bs, hbs⟩ := field_eq_cons v
    obtain ⟨cs, hcs⟩ := field_eq_cons w
    rw [hbs, hcs] at h
    exact (List.cons.inj h).1
  cases v <;> cases w
  case null.null => exact ⟨trivial, (List.cons.inj h).2⟩
  case bool.bool a b =>
    obtain ⟨hbyte, hrest⟩ := List.cons.inj (List.cons.inj h).2
    exact ⟨by cases a <;> cases b <;> trivial, hrest⟩
  case int.int i j =>
    obtain ⟨hbytes, hrest⟩ := bigEndian_append_inj (List.cons.inj h).2
    exact ⟨Function.LeftInverse.injective Int64.toInt64_toUInt64 hbytes, hrest⟩
  case float.float x y =>
    obtain ⟨hbytes, hrest⟩ := bigEndian_append_inj (List.cons.inj h).2
    exact ⟨Double.unsigned_eq_iff.1 (Double.bits_inj.1 hbytes), hrest⟩
  case text.text s t =>
    rw [field, field, List.append_assoc, List.append_assoc] at h
    obtain ⟨hsize, hrest⟩ := bigEndian_append_inj (List.cons.inj h).2
    have hnat := congrArg UInt64.toNat hsize
    rw [UInt64.toNat_ofNat_of_lt' hv, UInt64.toNat_ofNat_of_lt' hw] at hnat
    exact utf8_append_inj hnat hrest
  all_goals exact absurd htag (by simp [tag])

theorem field_eq_of_agrees (h : v.Agrees w) : v.field = w.field := by
  cases v <;> cases w
  case null.null => rfl
  case bool.bool | int.int | text.text => rw [show _ = _ from h]
  case float.float x y =>
    have hbits : x.unsigned = y.unsigned := Double.unsigned_eq_iff.2 h
    rw [field, field, hbits]
  all_goals exact False.elim h

theorem agrees_iff_alike : v.Agrees w ↔ v.alike w = true := by
  cases v <;> cases w
  case float.float x y =>
    rw [alike, Bool.or_eq_true, Bool.and_eq_true, beq_iff_eq, Double.isZero_iff, Double.isZero_iff,
      or_comm, ← Double.bits_inj]
    rfl
  all_goals simp [Agrees, alike]

/-- The value itself, and positive zero for both zeros. -/
def unsigned : Value → Value
  | float x => float x.unsigned
  | v => v

theorem agrees_iff_unsigned : v.Agrees w ↔ v.unsigned = w.unsigned := by
  cases v <;> cases w
  case float.float x y =>
    rw [unsigned, unsigned, float.injEq, Double.unsigned_eq_iff]
    rfl
  all_goals simp [Agrees, unsigned]

end Value

namespace Row

variable {x y : Row}

def Sized (r : Row) : Prop := ∀ v ∈ r, v.Sized

instance (r : Row) : Decidable r.Sized := inferInstanceAs (Decidable (∀ v ∈ r, v.Sized))

theorem keyBytes_cons_ne_nil (v : Value) (x : Row) : keyBytes (v :: x) ≠ [] := by
  obtain ⟨bs, hv⟩ := v.field_eq_cons
  rw [keyBytes, List.flatMap_cons, hv]
  exact List.cons_ne_nil _ _

theorem keyBytes_eq_of_agrees (h : List.Forall₂ Value.Agrees x y) : x.keyBytes = y.keyBytes := by
  induction h with
  | nil => rfl
  | cons hfg _ ih => exact congrArg₂ (· ++ ·) (Value.field_eq_of_agrees hfg) ih

/-- Keys are the same bytes if and only if the rows have equally many values, which agree one by
one. -/
theorem keyBytes_eq_iff_agrees (hx : x.Sized) (hy : y.Sized) :
    x.keyBytes = y.keyBytes ↔ List.Forall₂ Value.Agrees x y := by
  refine ⟨fun h => ?_, keyBytes_eq_of_agrees⟩
  induction x generalizing y with
  | nil =>
    cases y with
    | nil => exact .nil
    | cons w y => exact absurd h.symm (keyBytes_cons_ne_nil w y)
  | cons v x ih =>
    cases y with
    | nil => exact absurd h (keyBytes_cons_ne_nil v x)
    | cons w y =>
      obtain ⟨hv, hx⟩ := List.forall_mem_cons.1 hx
      obtain ⟨hw, hy⟩ := List.forall_mem_cons.1 hy
      obtain ⟨hvw, hrest⟩ := Value.agrees_of_append hv hw h
      exact .cons hvw (ih hx hy hrest)

theorem alike_iff : x.alike y = true ↔ List.Forall₂ Value.Agrees x y := by
  induction x generalizing y with
  | nil => cases y <;> simp [alike]
  | cons v x ih =>
    cases y with
    | nil => simp [alike]
    | cons w y =>
      rw [alike, List.isEqv_cons_cons, Bool.and_eq_true, List.forall₂_cons, ← ih, alike,
        Value.agrees_iff_alike]

/-- Rows are alike if and only if they are the same but for the signs of zeros. -/
theorem alike_iff_unsigned : x.alike y = true ↔ x.map Value.unsigned = y.map Value.unsigned := by
  have hagrees : Value.Agrees = fun v w => v.unsigned = w.unsigned :=
    funext₂ fun v w => propext Value.agrees_iff_unsigned
  rw [alike_iff, hagrees, ← List.forall₂_eq_eq_eq, List.forall₂_map_left_iff,
    List.forall₂_map_right_iff]

theorem keyBytes_eq_iff (hx : x.Sized) (hy : y.Sized) :
    x.keyBytes = y.keyBytes ↔ x.alike y = true := by
  rw [keyBytes_eq_iff_agrees hx hy, alike_iff]

end Row

theorem Value.keyBytes_eq_iff {v w : Value} (hv : v.Sized) (hw : w.Sized) :
    v.keyBytes = w.keyBytes ↔ v.alike w = true := by
  rw [keyBytes, keyBytes, Row.keyBytes_eq_iff (List.forall_mem_singleton.2 hv)
    (List.forall_mem_singleton.2 hw), Row.alike, List.isEqv_cons_cons, List.isEqv, Bool.and_true]

end RelQuery
