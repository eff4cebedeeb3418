import Descent.Diagnostic.Code

/-!
# Reports over a source text

A report shows an error where it is: a first line with the code and the message,
and under it the place in the source, with a label under the text that is meant.
This module says what a report is asked for and what is handed on to the one
that draws it. Drawing itself is left open: it is a *renderer*, of which a
report needs nothing but that it may be asked (`Report.Renderer`).

## Places

The range of a report is given by two numbers. They are first cut to the
size of the source in bytes and to each other, and are then handed on as they
are.
-/

namespace Descent.Report

/-! ## What is asked for -/

/-- What a report is about. -/
structure Request where
  /-- The code of the error. -/
  code : Code
  /-- The message. -/
  message : String
  /-- Where the error begins. -/
  start : Nat
  /-- Where the error ends. -/
  stop : Nat
  /-- What is written under the place; nothing if empty. -/
  label : String

/-- The first line of a report. -/
def head (code message : String) : String := s!"[{code}] Error: {message}\n"

/-! ## What is drawn -/

/-- **What a renderer is asked to draw.** -/
structure Notice where
  /-- The code of the error, as it is shown. -/
  code : String
  /-- The message. -/
  message : String
  /-- The index at which the report stands and its label begins. -/
  start : Nat
  /-- The index at which its label ends. -/
  stop : Nat
  /-- A label does not end before it begins. -/
  start_le_stop : start ≤ stop
  /-- The text of the label, if it has one. -/
  label : Option String

/-- **A report as it is drawn**, with what it says of the source. -/
structure Drawing where
  /-- The text of the report. -/
  text : String
  /-- The line and the column in its head, if it shows a place. -/
  place : Option (Nat × Nat)
  /-- The text of the source that its label covers, if it covers one. -/
  covered : Option String

/-- **One that draws reports.** -/
structure Renderer where
  /-- The report over a source; none if the source cannot be laid out. -/
  draw : Notice → String → Option Drawing
  /-- The lines that it sees in a source: for each character, whether a new line
  begins after it. -/
  breaks : List Char → List Bool

/-! ## Reports -/

/-- **What a request asks of a renderer**: its range is cut to the bytes of the
source, and an empty label is none. -/
def Request.notice (q : Request) (source : String) : Notice where
  code := q.code.display
  message := q.message
  start := min q.start (min q.stop source.utf8ByteSize)
  stop := min q.stop source.utf8ByteSize
  start_le_stop := Nat.min_le_right _ _
  label := if q.label.isEmpty then none else some q.label

/-- **The report of a request** over a source. Where it cannot be drawn, it is its
first line. -/
def drawing (R : Renderer) (q : Request) (source : String) : Drawing :=
  (R.draw (q.notice source) source).getD
    ⟨head q.code.display q.message, none, none⟩

end Descent.Report
