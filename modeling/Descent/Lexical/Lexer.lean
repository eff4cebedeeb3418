import Descent.Lexical.Lexicon
import Descent.Token.List

/-!
# Lexers

A lexer turns a source text into a token list, or says where the text stops
being readable. Hosts may bring a lexer of their own; `Lexicon.lexer` makes
one from a lexicon by giving each lexeme its place.

The places are accumulated lexeme by lexeme. The first unrecognized lexeme
ends the work, and no token before it is kept.
-/

namespace Descent

/-- **A text that no token begins with**, and its place. -/
structure LexicalError where
  /-- The unrecognized text. -/
  text : String
  /-- Where it begins. -/
  position : Position
  /-- Which bytes of the source it takes. -/
  span : Span
  deriving DecidableEq

namespace LexicalError

/-- The error in words. -/
def describe (e : LexicalError) : String :=
  s!"unrecognized input {quoted e.text} at {e.position.describe}"

end LexicalError

/-- **A way to turn source texts into tokens.** -/
structure Lexer (K : Type) where
  /-- The tokens of a text, or the first thing in it that is none. -/
  read : String → Except Fault (Except LexicalError (TokenList K))

namespace Lexicon

variable {K : Type}

/-- The bytes taken by a text that begins at a position. -/
def spanAt (p : Position) (text : String) : Span :=
  .ofRange p.offset.toNat (p.offset.toNat + text.utf8ByteSize)

/-- The tokens of a list of lexemes that begins at a position, and the
position where it ends. -/
def place (p : Position) :
    List (Lexeme K) →
      Except Fault (Except LexicalError (List (Token K) × Position))
  | [] => .ok (.ok ([], p))
  | lexeme :: rest =>
    let text := String.ofList lexeme.text
    match lexeme.reading with
    | .unrecognized => .ok (.error ⟨text, p, spanAt p text⟩)
    | .skipped => (p.advance text).bind (place · rest)
    | .token kind => do
      match ← place (← p.advance text) rest with
      | .error e => return .error e
      | .ok (tokens, stop) =>
        return .ok (.placed kind text p (spanAt p text) :: tokens, stop)

/-- **The lexer of a lexicon.** -/
def lexer (lexicon : Lexicon K) : Lexer K where
  read source := do
    match ← place .start (lexicon.lexemes source.toList) with
    | .error e => return .error e
    | .ok (tokens, stop) => return .ok (.withStop tokens stop)

end Lexicon

end Descent
