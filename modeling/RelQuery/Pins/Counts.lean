import RelQuery.Storage.Basic

namespace RelQuery

inductive PinEvent
  | taken (page : PageId)
  | released (page : PageId)
  deriving DecidableEq

def PinEvent.change (p : PageId) : PinEvent → Int
  | taken q => if q = p then 1 else 0
  | released q => if q = p then -1 else 0

/-- The counters by page; a page without an entry has no pins. -/
abbrev PinCounts := List (PageId × Int)

namespace PinCounts

def count (m : PinCounts) (p : PageId) : Int := (m.lookup p).getD 0

def add (p : PageId) (n : Int) : PinCounts → PinCounts
  | [] => [(p, n)]
  | (q, k) :: m => if q = p then (q, k + n) :: m else (q, k) :: add p n m

def apply (m : PinCounts) : PinEvent → PinCounts
  | .taken p => m.add p 1
  | .released p => m.add p (-1)

def run (m : PinCounts) (es : List PinEvent) : PinCounts := es.foldl apply m

end PinCounts

namespace Tuple

/-- A tuple comes to be, read from its page or as a copy. -/
def taken (t : Tuple) : List PinEvent := t.pin?.toList.map .taken

def released (t : Tuple) : List PinEvent := t.pin?.toList.map .released

def takeAll (ts : List Tuple) : List PinEvent := ts.flatMap taken

def releaseAll (ts : List Tuple) : List PinEvent := ts.flatMap released

def pinsOn (p : PageId) (ts : List Tuple) : Nat := ts.countP (·.pin? == some p)

end Tuple

namespace Storage

def pageIds (s : Storage) : List PageId :=
  s.tables.flatMap fun t => (List.range t.pages.length).map (⟨t.name, ·⟩)

end Storage

end RelQuery
