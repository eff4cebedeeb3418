import Descent.Diagnostic.Report
import Descent.Text.Width

/-!
# Reports drawn with rules

One way to draw a report: a margin with the numbers of the lines, the line or lines
of the source, and a label that hangs from the text it covers.

```
[E1001] Error: unexpected token '*' (STAR), expecting one of NUM
   ╭─[<unknown>:1:5]
   │
 1 │ 1 + * 2
   │     ┬
   │     ╰── NUM
───╯
```

## Places

The range of a notice is taken as one of *characters*. For a source in ASCII it is
the same as one of bytes.

Lines end not only at line feeds but at every character that separates lines or
pages, and a carriage return with the line feed after it is one end.

## Cells

Every character of a line is given the columns it takes on a screen, of which the
drawing is told. A tab takes what is left to the next multiple of four, counted in
characters from the start of the line. What a row draws under a character takes as
many columns: one sign, and a filler for the rest. Past the text of a line every
cell is one column wide.
-/

namespace Descent.Report

/-! ## Lines of a source -/

/-- The characters that end a line of a report. -/
def isLineEnd (c : Char) : Bool :=
  c == '\n' || c == '\r' || c == '\x0b' || c == '\x0c' || c == '\u0085' ||
    c == '\u2028' || c == '\u2029'

/-- The lines of a text, each with the characters that end it. -/
def splitLines : List Char → List (List Char)
  | [] => []
  | '\r' :: '\n' :: cs => ['\r', '\n'] :: splitLines cs
  | c :: cs =>
    if isLineEnd c then [c] :: splitLines cs
    else
      match splitLines cs with
      | [] => [[c]]
      | l :: ls => (c :: l) :: ls

/-- **Whether a new line begins after a character**, given what follows it: the
character ends a line, there is something in the next one, and it is not a
carriage return with its line feed after it. -/
def endsLine (c : Char) (cs : List Char) : Bool :=
  isLineEnd c && !cs.isEmpty && !(c == '\r' && cs.head? == some '\n')

/-- The characters of a source after which a new line begins. -/
def lineEnds : List Char → List Bool
  | [] => []
  | c :: cs => endsLine c cs :: lineEnds cs

/-- **A line of a source.** -/
structure Line where
  /-- How many characters stand before the line. -/
  offset : Nat
  /-- The number of characters of the line, its end included. -/
  length : Nat
  /-- The line without white space at its end. -/
  text : List Char

/-- The index of the first character after the line. -/
def Line.stop (l : Line) : Nat := l.offset + l.length

/-- The text without white space at its end. -/
def trimEnd (cs : List Char) : List Char :=
  (cs.reverse.dropWhile isBlank).reverse

/-- The line of some characters, of which so many stand before it. -/
def Line.of (offset : Nat) (cs : List Char) : Line := ⟨offset, cs.length, trimEnd cs⟩

@[simp] theorem Line.offset_of (o : Nat) (cs : List Char) : (of o cs).offset = o := rfl

@[simp] theorem Line.stop_of (o : Nat) (cs : List Char) :
    (of o cs).stop = o + cs.length := rfl

/-- Lines with the places where they begin, the first at `offset`. -/
def place (offset : Nat) : List (List Char) → List Line
  | [] => []
  | l :: ls => .of offset l :: place (offset + l.length) ls

/-- **The lines of a source.** -/
def linesOf (source : List Char) : List Line := place 0 (splitLines source)

/-- The last line that begins at or before a character, with its number
counted from zero. -/
def lineAt (lines : List Line) (x : Nat) : Nat × Line :=
  let before := lines.takeWhile (·.offset ≤ x)
  (before.length - 1, before.getLast?.getD ⟨0, 0, []⟩)

/-! ## Cells -/

section

variable (width : Char → Nat)

/-- The columns that a character of a line takes, given its index in the
line. -/
def cellWidth (c : Char) (i : Nat) : Nat :=
  if c = '\t' then 4 - i % 4
  else if isBlank c then 1
  else width c

/-- The columns of the cell at an index of a line. -/
def Line.widthAt (l : Line) (i : Nat) : Nat :=
  match l.text[i]? with
  | some c => cellWidth width c i
  | none => 1

/-- The columns of the first cells of a line. -/
def Line.widthOf (l : Line) : (cells : Nat) → Nat
  | 0 => 0
  | n + 1 => l.widthOf n + l.widthAt width n

/-- Blanks. -/
def blanks (n : Nat) : String := String.ofList (List.replicate n ' ')

/-- The text of a line, with white space drawn as blanks. -/
def Line.body (l : Line) : String :=
  String.join <| l.text.zipIdx.map fun (c, i) =>
    if isBlank c then blanks (cellWidth width c i) else c.toString

/-- A cell of some columns: one sign, then fillers. -/
def cell (columns : Nat) (sign fill : Char) : String :=
  match columns with
  | 0 => ""
  | n + 1 => String.ofList (sign :: List.replicate n fill)

/-! ## The parts of a drawing -/

/-- The margin of a report whose line numbers have `w` digits. -/
structure Margin where
  /-- The digits of the largest line number. -/
  w : Nat

namespace Margin

/-- The margin without a number. -/
def bar (m : Margin) : String := blanks (m.w + 2) ++ "│ "

/-- The margin beside lines that are left out. -/
def gap (m : Margin) : String := blanks (m.w + 2) ++ "┆ "

/-- The margin with the number of a line counted from zero. -/
def number (m : Margin) (line : Nat) : String :=
  let digits := toString (line + 1)
  " " ++ blanks (m.w - digits.length) ++ digits ++ " │ "

/-- The lines before the source lines. -/
def opening (m : Margin) (line column : Nat) : String :=
  blanks (m.w + 2) ++ s!"╭─[<unknown>:{line}:{column}]\n" ++
    blanks (m.w + 2) ++ "│\n"

/-- The last line of a report. -/
def closing (m : Margin) : String :=
  String.ofList (List.replicate (m.w + 2) '─') ++ "╯\n"

end Margin

/-- The sign and the filler of a cell in the row under the characters `a` up to `b`
of a line. Those characters are underlined, and the label hangs from the one in
their middle. -/
def signAt (l : Line) (a b i : Nat) : Char × Char :=
  let middle := (a + b) / 2 - l.offset
  if a ≤ l.offset + i ∧ l.offset + i < b then (if i = middle then '┬' else '─', '─')
  else (if i = middle then '│' else ' ', ' ')

/-- The row of signs under the characters `a` up to `b` of a line. -/
def signRow (l : Line) (a b : Nat) : String :=
  String.join <| (List.range (b - l.offset + 2)).map fun i =>
    cell (l.widthAt width i) (signAt l a b i).1 (signAt l a b i).2

/-- The row that leads from the signs to the label. -/
def labelRow (l : Line) (a b : Nat) (label : String) : String :=
  let middle := (a + b) / 2 - l.offset
  let cells := (List.range (b - l.offset + 2)).map fun i =>
    let columns := l.widthAt width i
    if i < middle then cell columns ' ' ' '
    else if i = middle then cell columns '╰' '─'
    else cell columns '─' '─'
  String.join cells ++ " " ++ label

/-- The source line of a report about a place in one line. A place that
reaches past the end of the line is not drawn. -/
def oneLine (m : Margin) (number : Nat) (l : Line) (a b : Nat)
    (label : Option String) : String :=
  if l.stop < b then m.bar ++ "\n"
  else
    m.number number ++ l.body width ++ "\n" ++
      match label with
      | none => ""
      | some label =>
        m.bar ++ signRow width l a b ++ "\n" ++
          (m.bar ++ labelRow width l a b label ++ "\n")

/-- The source lines of a report about a place over several lines: the first
line, a gap for those between, and the last line with the label. If the place
reaches past the end of the last line, that line is left to the gap. -/
def manyLines (m : Margin) (first : Nat × Line) (last : Nat × Line) (a b : Nat)
    (label : Option String) : String :=
  match label with
  | none => (if a = first.2.offset then m.gap else m.bar) ++ "\n"
  | some label =>
    let opened := m.number first.1 ++ "╭─▶ " ++ first.2.body width ++ "\n"
    let between := m.gap ++ "┆   \n"
    if last.2.stop < b then opened ++ between
    else
      let columns := last.2.widthOf width (last.2.length + 2)
      opened ++ ((if first.1 + 1 < last.1 then between else "") ++
        (m.number last.1 ++ "├─▶ " ++ last.2.body width ++ "\n" ++
          (m.bar ++ "│   " ++ blanks columns ++ "\n" ++
            (m.bar ++ "╰───" ++ String.ofList (List.replicate columns '─') ++ " " ++
              label ++ "\n"))))

/-! ## Drawings -/

/-- **The drawing of a notice.** Where its place lies in no line of the source,
only the first line is shown. -/
def ruledDrawing (n : Notice) (source : String) : Drawing :=
  let chars := source.toList
  let lines := linesOf chars
  let a := n.start
  let b := n.stop
  if lines.isEmpty ∨ chars.length < a ∨ (a < b ∧ chars.length < b - 1) then
    ⟨head n.code n.message, none, none⟩
  else
    let first := lineAt lines a
    let last := if a < b then lineAt lines (b - 1) else first
    let m : Margin := ⟨(toString (last.1 + 1)).length⟩
    let line := first.1 + 1
    let column := a - first.2.offset + 1
    { text := head n.code n.message ++ m.opening line column ++
        ((if first.1 = last.1 then oneLine width m first.1 first.2 a b n.label
            else manyLines width m first last a b n.label) ++
          m.closing)
      place := some (line, column)
      covered :=
        if b ≤ chars.length then some (.ofList ((chars.take b).drop a)) else none }

/-- **The renderer that draws with rules**, given how many columns a character
takes. -/
def ruled : Renderer where
  draw n source := some (ruledDrawing width n source)
  breaks := lineEnds

end

/-- **The report of a request**, drawn with rules for a terminal. -/
def render (q : Request) (source : String) : String :=
  (drawing (ruled displayWidth) q source).text

end Descent.Report
