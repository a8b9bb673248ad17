/-!
# Spans

A span is a pair of byte offsets into a source. Its end is exclusive when the span is read as a
piece of text (`length?`, `isEmpty`) and inclusive when it is asked for a cursor (`contains`), so
that a cursor just behind the last character of a name still touches the name.

Nothing here asks that a span runs forwards or lies inside a source: a reversed span has no length,
contains no offset and covers no text.
-/

namespace Scoping

/-- A range of byte offsets. -/
structure Span where
  start : Nat
  stop : Nat
  deriving DecidableEq, Repr, Inhabited

namespace Span

/-- The span of no text at `offset`. -/
def point (offset : Nat) : Span := ⟨offset, offset⟩

/-- The number of bytes from start to end; a reversed span has none to give. -/
def length? (s : Span) : Option Nat :=
  if s.start ≤ s.stop then some (s.stop - s.start) else none

/-- Start and end coincide. -/
def isEmpty (s : Span) : Bool := s.start == s.stop

/-- A cursor at `offset` touches the span, both ends included. -/
def contains (s : Span) (offset : Nat) : Bool := s.start ≤ offset && offset ≤ s.stop

/-- `t` lies within `s`. -/
def covers (s t : Span) : Bool := s.start ≤ t.start && t.stop ≤ s.stop

/-- The smallest span that covers both. -/
def join (s t : Span) : Span := ⟨min s.start t.start, max s.stop t.stop⟩

/-- Spans are ordered by their start, those with one start by their end. -/
def precedes (s t : Span) : Bool := s.start < t.start || (s.start == t.start && s.stop ≤ t.stop)

theorem contains_iff {s : Span} {offset : Nat} :
    s.contains offset = true ↔ s.start ≤ offset ∧ offset ≤ s.stop := by
  simp [contains]

theorem covers_iff {s t : Span} : s.covers t = true ↔ s.start ≤ t.start ∧ t.stop ≤ s.stop := by
  simp [covers]

end Span

end Scoping
