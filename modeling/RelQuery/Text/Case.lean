import RelQuery.Text.CaseTable

namespace RelQuery

namespace LetterCase

def isCased (c : Char) : Bool := CaseTable.inRanges CaseTable.casedRanges c.toNat

def isIgnorable (c : Char) : Bool := CaseTable.inRanges CaseTable.ignorableRanges c.toNat

/-- The first character that is not ignorable is a letter with case. -/
def meetsLetter (cs : List Char) : Bool := ((cs.dropWhile isIgnorable).head?).any isCased

/-- The capital I with a dot keeps its dot as a combining character. -/
def lowerChar (c : Char) : List Char :=
  if c = 'İ' then ['i', Char.ofNat 0x307]
  else [((CaseTable.shift? CaseTable.lowerRuns c.toNat).map Char.ofNat).getD c]

def upperChar (c : Char) : List Char :=
  match CaseTable.upperSequences.lookup c.toNat with
  | some cs => cs.map Char.ofNat
  | none => [((CaseTable.shift? CaseTable.upperRuns c.toNat).map Char.ofNat).getD c]

/-- Lower case of a text whose reversed beginning is `before`. -/
def lowerFrom (before : List Char) : List Char → List Char
  | [] => []
  | c :: after =>
    let here :=
      if c = 'Σ' then [if meetsLetter before && !meetsLetter after then 'ς' else 'σ']
      else lowerChar c
    here ++ lowerFrom (c :: before) after

end LetterCase

def lowerCase (s : String) : String := String.ofList (LetterCase.lowerFrom [] s.toList)

def upperCase (s : String) : String := String.ofList (s.toList.flatMap LetterCase.upperChar)

end RelQuery
