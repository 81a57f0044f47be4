import ConnectionLog.Span

/-!
How the table of a log changes when its span does. `Plan.between` turns the old
and the new span into the fewest edits that lead from one to the other: none, a
reset, or a trim in front, a grow at the end, or both.
-/
namespace ConnectionLog

inductive Edit where
  | keep
  | reset (target : Span)
  /-- The first `removed` rows go. -/
  | trim (first : Int) (removed : Nat)
  /-- `added` rows come in before row `row`, which is the end of the table. -/
  | grow (last : Int) (row added : Nat)
deriving DecidableEq

def Span.apply (s : Span) : Edit → Span
  | .keep => s
  | .reset target => target
  | .trim first _ => ⟨first, s.last⟩
  | .grow last _ _ => ⟨s.first, last⟩

/-- One edit, or two to be made one after the other. -/
structure Plan where
  head : Edit
  next : Option Edit
deriving DecidableEq

namespace Plan

def single (e : Edit) : Plan := ⟨e, none⟩

def isUnchanged (p : Plan) : Bool := p.head = .keep

def edits (p : Plan) : List Edit :=
  (p.head :: p.next.toList).filter (· ≠ .keep)

/-- The rows of `old` that are left are of no use to a table of `new`: the new
table starts before or behind them, ends before they do, or there are none. -/
def NoOverlap (old new : Span) : Prop :=
  new.first < old.first ∨ old.last ≤ new.first ∨ new.last < old.last ∨ old.last = 0

instance (old new : Span) : Decidable (NoOverlap old new) :=
  inferInstanceAs (Decidable (_ ∨ _ ∨ _ ∨ _))

def trimTo (old new : Span) : Option Edit :=
  if old.first < new.first then some (.trim new.first (new.first - old.first).natAbs) else none

/-- The grow that moves the upper bound up, if it moves. Its row counts from the
lower bound that is already the new one. -/
def growTo (old new : Span) : Option Edit :=
  if old.last < new.last then
    some (.grow new.last ((old.last - new.first).natAbs + 1) (new.last - old.last).natAbs)
  else none

def between (old new : Span) : Plan :=
  if old = new then single .keep
  else if NoOverlap old new then single (.reset new)
  else
    match trimTo old new, growTo old new with
    | some t, some g => ⟨t, some g⟩
    | some t, none => single t
    | none, some g => single g
    | none, none => single .keep

end Plan

end ConnectionLog
