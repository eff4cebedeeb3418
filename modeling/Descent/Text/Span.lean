import Descent.Text.Position

/-!
# Spans

A `Span` is a range of byte offsets: the first offset it covers and the
first offset after it. Nothing forces the two to be in order, because hosts
make spans of their own; the length of a reversed span is a fault.
-/

namespace Descent

/-- **A range of byte offsets.** -/
structure Span where
  /-- The first offset of the range. -/
  start : UInt32
  /-- The first offset after the range. -/
  stop : UInt32
  deriving DecidableEq, Repr

namespace Span

/-- The span of things that come from no text. -/
def nowhere : Span := ⟨0, 0⟩

instance : Inhabited Span := ⟨nowhere⟩

/-- The empty span at an offset. -/
def point (offset : UInt32) : Span := ⟨offset, offset⟩

/-- The span of a range of offsets of any size; an offset beyond the largest
word becomes that word. -/
def ofRange (start stop : Nat) : Span := ⟨saturate start, saturate stop⟩

/-- The number of bytes covered. -/
def length (s : Span) : Except Fault UInt32 :=
  if s.start ≤ s.stop then .ok (s.stop - s.start) else .error .subOverflow

/-- Whether the span covers nothing: its two ends coincide. -/
def isEmpty (s : Span) : Bool := s.start == s.stop

/-- The smallest span that reaches over both. -/
def merge (s t : Span) : Span :=
  ⟨if s.start ≤ t.start then s.start else t.start,
   if s.stop ≤ t.stop then t.stop else s.stop⟩

/-- The two offsets, parted by two dots. -/
def describe (s : Span) : String :=
  s!"{s.start.toNat}..{s.stop.toNat}"

@[simp] theorem length_point (offset : UInt32) : (point offset).length = .ok 0 := by
  simp [length, point]

@[simp] theorem isEmpty_point (offset : UInt32) : (point offset).isEmpty = true := by
  simp [isEmpty, point]

end Span

end Descent
