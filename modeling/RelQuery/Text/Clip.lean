namespace RelQuery

/-- Messages show at most this many bytes of a value. -/
def clipLimit : Nat := 100

/-- The text before a byte; there is none where this would cut a character, or behind the end. -/
def upTo? (s : String) (stop : Nat) : Option String :=
  if h : String.Pos.Raw.IsValid s ⟨stop⟩ then some (String.extract s.startPos ⟨⟨stop⟩, h⟩) else none

/-- From a byte backwards, the first at which a character begins or the text ends. -/
def lastCut (s : String) : Nat → Nat
  | 0 => 0
  | i + 1 => if String.Pos.Raw.isValid s ⟨i + 1⟩ then i + 1 else lastCut s i

/-- A long text is cut at the last byte within the limit that allows it. -/
def clip? (s : String) : Option String :=
  if s.utf8ByteSize ≤ clipLimit then some s
  else (upTo? s (lastCut s clipLimit)).map (· ++ "...")

theorem isValid_lastCut (s : String) (i : Nat) : String.Pos.Raw.IsValid s ⟨lastCut s i⟩ := by
  induction i with
  | zero => exact String.Pos.Raw.isValid_zero
  | succ i ih =>
    rw [lastCut]
    split
    · next h => exact String.Pos.Raw.isValid_eq_true_iff.1 h
    · exact ih

theorem isSome_clip? (s : String) : (clip? s).isSome = true := by
  rw [clip?, upTo?, dif_pos (isValid_lastCut s clipLimit)]
  split <;> rfl

def clip (s : String) : String := (clip? s).get (isSome_clip? s)

end RelQuery
