import ConnectionLog.Limits
import ConnectionLog.Numeral

/-!
The bounds of the identifiers a log holds, and the table they span: row `i` of
the table is the identifier `first + i`.
-/
namespace ConnectionLog

/-- Both bounds are included. A span whose `last` is not positive stands for an
empty log, whatever its `first` is. -/
structure Span where
  first : Int
  last : Int
deriving DecidableEq

namespace Span

def empty : Span := ⟨0, 0⟩

def isEmpty (s : Span) : Bool := s.last ≤ 0

/-- The number of identifiers in the span, none if the bounds are inverted. The
count of a span over every identifier is one short, since it stops at the
largest count. -/
def rows (s : Span) : Nat :=
  if s.isEmpty || s.last < s.first then 0
  else min ((s.last - s.first).toNat + 1) maxCount

/-- The identifier at a row of the table, if the table has that row and the
identifier is not beyond the largest one. -/
def id? (s : Span) (row : Nat) : Option Int :=
  if row < s.rows ∧ (row : Int) ≤ maxId ∧ s.first + row ≤ maxId then some (s.first + row)
  else none

def text (s : Span) : String :=
  "[" ++ Numeral.intText s.first ++ ", " ++ Numeral.intText s.last ++ "]"

end Span

end ConnectionLog
