import Descent.Lexical.Lexer

/-!
# The tokens of rule texts

A rule text such as `sum : term ((PLUS | MINUS) term)*` is a text like any
other, and so it has token kinds and a lexicon of its own: names, numbers,
signs, the mark of a discarded clause, and the words that declare
operators.
-/

namespace Descent

/-- **The kinds of token of rule texts.** -/
inductive RuleKind where
  | ident | int | colon | semicolon | pipe | lparen | rparen | question | star
  | plus | discard | infixed | prefixed | postfixed | left | right
  deriving DecidableEq, Repr

namespace RuleKind

/-- All kinds, in order. -/
def all : List RuleKind :=
  [ident, int, colon, semicolon, pipe, lparen, rparen, question, star, plus,
    discard, infixed, prefixed, postfixed, left, right]

/-- The name of a kind, in messages and in descriptions. -/
def name : RuleKind → String
  | ident => "Ident"
  | int => "Int"
  | colon => "Colon"
  | semicolon => "Semicolon"
  | pipe => "Pipe"
  | lparen => "LParen"
  | rparen => "RParen"
  | question => "Question"
  | star => "Star"
  | plus => "Plus"
  | discard => "Discard"
  | infixed => "Infix"
  | prefixed => "Prefix"
  | postfixed => "Postfix"
  | left => "Left"
  | right => "Right"

instance : TokenKind RuleKind where
  name := name
  ofName? s := all.find? (·.name == s)
  label := name

end RuleKind

namespace RuleText

/-- A digit. -/
def isDigit (c : Char) : Bool := '0' ≤ c && c ≤ '9'

/-- A character that a name may begin with. -/
def isNameStart (c : Char) : Bool :=
  ('A' ≤ c && c ≤ 'Z') || ('a' ≤ c && c ≤ 'z') || c == '_'

/-- A character that a name may go on with. -/
def isNamePart (c : Char) : Bool := isNameStart c || isDigit c

/-- A blank, a tab or a line end. -/
def isGap (c : Char) : Bool := c == ' ' || c == '\t' || c == '\r' || c == '\n'

/-- The rule of a sign or a word. -/
def word (s : String) (kind : RuleKind) : LexicalRule RuleKind :=
  ⟨.word s.toList, some kind⟩

/-- **The lexicon of rule texts.** -/
def lexicon : Lexicon RuleKind :=
  [⟨.run isGap isGap, none⟩,
    ⟨.run isNameStart isNamePart, some .ident⟩,
    ⟨.run isDigit isDigit, some .int⟩,
    word ":" .colon, word ";" .semicolon, word "|" .pipe, word "(" .lparen,
    word ")" .rparen, word "?" .question, word "*" .star, word "+" .plus,
    word "[d]" .discard, word "%infix" .infixed, word "%prefix" .prefixed,
    word "%postfix" .postfixed, word "%left" .left, word "%right" .right]

end RuleText

end Descent
