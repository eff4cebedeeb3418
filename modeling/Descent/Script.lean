import Descent.Lexical.Lexer

/-!
# A small host language

Script is the language on which grammars are tried out: numbers, names in
Latin and in Greek letters, quoted texts, one keyword, and the usual signs of
arithmetic. Blanks and comments from a number sign to the end of the line
part its tokens.
-/

namespace Descent

/-- **The kinds of token of Script.** -/
inductive ScriptKind where
  | num | ident | greek | text | let_ | plus | minus | star | slash | caret
  | bang | assign | equal | lparen | rparen | comma | semi
  deriving DecidableEq, Repr

namespace ScriptKind

/-- All kinds, in order. -/
def all : List ScriptKind :=
  [num, ident, greek, text, let_, plus, minus, star, slash, caret, bang, assign,
    equal, lparen, rparen, comma, semi]

/-- The name of a kind in rule texts. -/
def name : ScriptKind → String
  | num => "NUM"
  | ident => "IDENT"
  | greek => "GREEK"
  | text => "TEXT"
  | let_ => "LET"
  | plus => "PLUS"
  | minus => "MINUS"
  | star => "STAR"
  | slash => "SLASH"
  | caret => "CARET"
  | bang => "BANG"
  | assign => "ASSIGN"
  | equal => "EQUAL"
  | lparen => "LPAREN"
  | rparen => "RPAREN"
  | comma => "COMMA"
  | semi => "SEMI"

/-- The label of a kind in descriptions. -/
def label : ScriptKind → String
  | num => "Num"
  | ident => "Ident"
  | greek => "Greek"
  | text => "Text"
  | let_ => "Let"
  | plus => "Plus"
  | minus => "Minus"
  | star => "Star"
  | slash => "Slash"
  | caret => "Caret"
  | bang => "Bang"
  | assign => "Assign"
  | equal => "Equal"
  | lparen => "LParen"
  | rparen => "RParen"
  | comma => "Comma"
  | semi => "Semi"

instance : TokenKind ScriptKind where
  name := name
  ofName? s := all.find? (·.name == s)
  label := label

/-- The kind of a kind's name is the kind. -/
theorem ofName?_name (kind : ScriptKind) :
    TokenKind.ofName? (TokenKind.name kind) = some kind := by
  cases kind <;> rfl

end ScriptKind

namespace Script

/-- A digit. -/
def isDigit (c : Char) : Bool := '0' ≤ c && c ≤ '9'

/-- A small Latin letter. -/
def isLetter (c : Char) : Bool := 'a' ≤ c && c ≤ 'z'

/-- A small Greek letter, from alpha to omega. -/
def isGreek (c : Char) : Bool := 'α' ≤ c && c ≤ 'ω'

/-- A blank, a tab or a line end. -/
def isGap (c : Char) : Bool := c == ' ' || c == '\t' || c == '\r' || c == '\n'

/-- The rule of a sign or a keyword. -/
def word (s : String) (kind : ScriptKind) : LexicalRule ScriptKind :=
  ⟨.word s.toList, some kind⟩

/-- **The lexicon of Script.** The keyword stands before the names, so that it
wins where both read equally much. -/
def lexicon : Lexicon ScriptKind :=
  [⟨.run isGap isGap, none⟩,
    ⟨.run (· == '#') (· != '\n'), none⟩,
    word "let" .let_,
    ⟨.run isDigit isDigit, some .num⟩,
    ⟨.run isLetter fun c => isLetter c || isDigit c || c == '_', some .ident⟩,
    ⟨.run isGreek isGreek, some .greek⟩,
    ⟨.fenced '"', some .text⟩,
    word "+" .plus, word "-" .minus, word "*" .star, word "/" .slash,
    word "^" .caret, word "!" .bang, word "=" .assign, word "==" .equal,
    word "(" .lparen, word ")" .rparen, word "," .comma, word ";" .semi]

end Script

end Descent
