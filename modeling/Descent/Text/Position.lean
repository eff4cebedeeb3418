import Descent.Fault

/-!
# Positions in a source text

A `Position` says where a piece of text begins in three units at once: the
line and the column, both counted from one, and the byte offset, counted
from zero. Lines end at line feeds only; a column is one character wide,
whatever its width in bytes or on the screen.

The counters are 32-bit words. A line or a column that would leave its word
is a fault, while the offset stays at the largest word: a report can do
without an exact offset but not without an exact line.

Advancing over a text is advancing over its characters one by one
(`Position.advance_append`), so a position does not depend on how the text
before it was cut into pieces.
-/

namespace Descent

/-- The word nearest to a number: itself, or the largest word. -/
def saturate (n : Nat) : UInt32 :=
  UInt32.ofNat (min n (UInt32.size - 1))

/-- The next word, or a fault where there is none. -/
def increment (n : UInt32) : Except Fault UInt32 :=
  if n.toNat + 1 < UInt32.size then .ok (n + 1) else .error .addOverflow

/-- **A place in a source text.** -/
structure Position where
  /-- The line, counted from one. -/
  line : UInt32
  /-- The column in characters, counted from one. -/
  column : UInt32
  /-- The offset in bytes, counted from zero. -/
  offset : UInt32
  deriving DecidableEq, Repr

namespace Position

/-- The place before the first character of a text. -/
def start : Position := ⟨1, 1, 0⟩

instance : Inhabited Position := ⟨start⟩

/-- Positions are ordered by line, then by column, then by offset. -/
def compare (p q : Position) : Ordering :=
  (Ord.compare p.line q.line).then
    ((Ord.compare p.column q.column).then (Ord.compare p.offset q.offset))

instance : Ord Position := ⟨compare⟩

/-- The place after one character. -/
def next (p : Position) (c : Char) : Except Fault Position := do
  let offset := saturate (p.offset.toNat + c.utf8Size)
  if c = '\n' then
    return ⟨← increment p.line, 1, offset⟩
  else
    return ⟨p.line, ← increment p.column, offset⟩

/-- The place after a list of characters. -/
def advanceChars (p : Position) (cs : List Char) : Except Fault Position :=
  cs.foldlM next p

/-- The place after a text. -/
def advance (p : Position) (text : String) : Except Fault Position :=
  p.advanceChars text.toList

/-- The line and the column in words. -/
def describe (p : Position) : String :=
  s!"line {p.line.toNat}, column {p.column.toNat}"

@[simp] theorem advanceChars_nil (p : Position) :
    p.advanceChars [] = .ok p := rfl

theorem advanceChars_cons (p : Position) (c : Char) (cs : List Char) :
    p.advanceChars (c :: cs) = (p.next c).bind (·.advanceChars cs) := rfl

/-- **Advancing over two pieces is advancing over their concatenation**,
faults included. -/
theorem advanceChars_append (p : Position) (cs ds : List Char) :
    p.advanceChars (cs ++ ds) = (p.advanceChars cs).bind (·.advanceChars ds) := by
  simp only [advanceChars, List.foldlM_append]
  rfl

end Position

end Descent
