import Descent.Lexical.Lexer

/-!
# Scanners

A scanner finds the tokens of a source text as ranges. Of each range it says what
kind of token stands there, or that none does, and what lies between two ranges
is skipped. It knows bytes and nothing of lines and columns.

The places are added by one pass over the ranges (`Scan`). The pass remembers how
much of the text it has counted and where that brought it; before each range it
counts what was skipped, after each range the range itself, and at the end what is
left. A lexicon gives such ranges as well (`Lexicon.rangesFrom`).
-/

namespace Descent

variable {K : Type} {source : String}

/-- **A range of a source text.** Its ends lie between two characters. -/
structure TextRange (K : Type) (source : String) where
  /-- The kind of token that stands there, or none if nothing is recognized. -/
  kind? : Option K
  /-- Where it begins. -/
  start : source.Pos
  /-- Where it ends. -/
  stop : source.Pos

namespace TextRange

/-- The text that stands there. -/
def text (r : TextRange K source) : String :=
  String.extract r.start r.stop

/-- Which bytes of the source it takes. -/
def span (r : TextRange K source) : Span :=
  .ofRange r.start.offset.byteIdx r.stop.offset.byteIdx

end TextRange

/-- **A way to find the tokens of source texts**: the ranges of a text in order,
none of them empty and each after the one before it. -/
structure Scanner (K : Type) where
  /-- The ranges of a text. -/
  ranges : (source : String) → List (TextRange K source)
  /-- No range is empty. -/
  start_lt_stop : ∀ source, ∀ r ∈ ranges source, r.start < r.stop
  /-- No range begins before the ranges that come first have ended. -/
  pairwise : ∀ source, (ranges source).Pairwise fun r s => r.stop ≤ s.start

/-- **What a pass over the ranges of a text knows**: the tokens so far, how much of
the text is counted, and the place there. -/
structure Scan (K : Type) (source : String) where
  /-- The tokens of the ranges so far. -/
  tokens : List (Token K)
  /-- The place of what is not counted yet. -/
  position : Position
  /-- The end of what is counted. -/
  consumed : source.Pos

namespace Scan

/-- Before the first range. -/
def initial : Scan K source := ⟨[], .start, source.startPos⟩

/-- **One range further**: what was skipped is counted, the token is put down at
the place that is reached, and the range is counted. -/
def step (s : Scan K source) (r : TextRange K source) :
    Except Fault (Except LexicalError (Scan K source)) := do
  let position ← s.position.advance (String.extract s.consumed r.start)
  match r.kind? with
  | none => return .error ⟨r.text, position, r.span⟩
  | some kind =>
    let tokens := s.tokens ++ [.placed kind r.text position r.span]
    return .ok ⟨tokens, ← position.advance r.text, r.stop⟩

/-- Over several ranges, up to the first where nothing is recognized. -/
def run (s : Scan K source) :
    List (TextRange K source) → Except Fault (Except LexicalError (Scan K source))
  | [] => .ok (.ok s)
  | r :: rs => do
    match ← s.step r with
    | .error e => return .error e
    | .ok s => s.run rs

/-- The tokens, with the place at the end of the text. -/
def finish (s : Scan K source) : Except Fault (TokenList K) := do
  let stop ← s.position.advance (String.extract s.consumed source.endPos)
  return .withStop s.tokens stop

/-- Over all ranges that are left, and to the end of the text. -/
def complete (s : Scan K source) (rs : List (TextRange K source)) :
    Except Fault (Except LexicalError (TokenList K)) := do
  match ← s.run rs with
  | .error e => return .error e
  | .ok s => return .ok (← s.finish)

end Scan

/-- **The lexer of a scanner.** -/
def Scanner.lexer (scanner : Scanner K) : Lexer K where
  read source := Scan.initial.complete (scanner.ranges source)

/-- The ranges of lexemes that begin at a place of a text. What is skipped is
none. -/
def Lexicon.rangesFrom (p : source.Pos) : List (Lexeme K) → List (TextRange K source)
  | [] => []
  | l :: ls =>
    let q := p.nextn l.text.length
    match l.reading with
    | .skipped => rangesFrom q ls
    | .unrecognized => ⟨none, p, q⟩ :: rangesFrom q ls
    | .token kind => ⟨some kind, p, q⟩ :: rangesFrom q ls

end Descent
