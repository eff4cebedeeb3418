import Descent.Text.Description
import Descent.Text.Span

/-!
# Tokens

The host of a grammar decides what kinds of token there are; the library only
has to tell kinds apart and to name them. `TokenKind` collects what it needs:
the name by which rule texts speak of a kind, the way back from a name, and
the label that descriptions show.

A token is a piece of text of some kind, with the place where it stands. The
end of a stream can be marked by a token as well; such a marker has no text
and is never matched.
-/

namespace Descent

/-- **The kinds of token of a host language.** -/
class TokenKind (K : Type) where
  /-- The name by which rule texts and messages speak of the kind. -/
  name : K → String
  /-- The kind of a name, if the name is one of a kind. -/
  ofName? : String → Option K
  /-- The label shown in descriptions. -/
  label : K → String

/-- **A token**: a piece of text, its kind and its place. -/
structure Token (K : Type) where
  /-- What sort of token it is. -/
  kind : K
  /-- The text it was read from. -/
  text : String
  /-- Where the text begins. -/
  position : Position
  /-- Which bytes of the source the text takes. -/
  span : Span
  /-- Whether this is no token but a mark of the end of the stream. -/
  isEndMark : Bool
  deriving DecidableEq

namespace Token

variable {K : Type}

/-- A token at a place. -/
def placed (kind : K) (text : String) (position : Position) (span : Span) :
    Token K :=
  ⟨kind, text, position, span, false⟩

/-- A token that comes from no source. -/
def unplaced (kind : K) (text : String) : Token K :=
  placed kind text .start .nowhere

/-- The mark of the end of a stream. -/
def endMark (kind : K) (position : Position) : Token K :=
  ⟨kind, "", position, .point position.offset, true⟩

/-- The place after the token's text. -/
def endPosition (t : Token K) : Except Fault Position :=
  t.position.advance t.text

/-- The token's label, text and place. -/
def description [TokenKind K] (t : Token K) : Description :=
  let place := s!"@ {t.position.line.toNat}:{t.position.column.toNat}"
  if t.isEndMark then .word s!"<eos> {place}"
  else .word s!"{TokenKind.label t.kind} {quoted t.text} {place}"

@[simp] theorem endPosition_endMark (kind : K) (position : Position) :
    (endMark kind position).endPosition = .ok position := rfl

end Token

end Descent
