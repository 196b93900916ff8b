-- Byte spans: half-open ranges of byte offsets into a source text.
import LogSweep.Text

namespace LogSweep

/-- The bytes from `start` up to, and not including, `stop`. Nothing keeps the two in order. -/
structure Span where
  start : Nat
  stop : Nat
  deriving DecidableEq, Repr, Inhabited

namespace Span

/-- The number of bytes covered; none when the ends are out of order. -/
def length (s : Span) : Nat := s.stop - s.start

def isEmpty (s : Span) : Bool := s.stop ≤ s.start

/-- Whether `inner` lies inside, shared ends included. -/
def contains (s inner : Span) : Bool := s.start ≤ inner.start && inner.stop ≤ s.stop

/-- Whether two spans share a byte. -/
def overlaps (s t : Span) : Bool := s.start < t.stop && t.start < s.stop

/-- The text covered, when both ends are cuts of the source and in order. -/
def slice? (s : Span) (source : String) : Option String :=
  (Text.slice? source.toList s.start s.stop).map String.ofList

/-- Spans are ordered by start, then by stop. -/
def order (s t : Span) : Ordering := (compare s.start t.start).then (compare s.stop t.stop)

theorem contains_iff (s t : Span) :
    s.contains t = true ↔ s.start ≤ t.start ∧ t.stop ≤ s.stop := by
  simp [contains]

theorem overlaps_iff (s t : Span) :
    s.overlaps t = true ↔ s.start < t.stop ∧ t.start < s.stop := by
  simp [overlaps]

theorem contains_refl (s : Span) : s.contains s = true := by simp [contains]

theorem contains_trans {s t u : Span} (h : s.contains t = true) (k : t.contains u = true) :
    s.contains u = true := by
  simp only [contains_iff] at *
  omega

end Span

/-- The order in which spans are looked at; ties stay as they are. -/
def startsBefore (s t : Span) : Bool := s.start ≤ t.start

end LogSweep
