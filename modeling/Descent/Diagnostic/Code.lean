/-!
# Error codes

Every error a user can meet has a code: a letter, a digit that says whether a
text (1) or a grammar (2) is at fault, and a running number. Errors in a
grammar also have a level.
-/

namespace Descent

/-- **The codes of errors**, named for what they stand for. -/
inductive Code where
  | unexpectedToken | unexpectedEnd | lexical | missingCallback
  | malformedRule | leftRecursion | undefinedName | missingStart | ebnfInPlain
  | invalidOperator | lexerFailed
  deriving DecidableEq, Repr

namespace Code

/-- All codes, in order. -/
def all : List Code :=
  [unexpectedToken, unexpectedEnd, lexical, missingCallback, malformedRule,
    leftRecursion, undefinedName, missingStart, ebnfInPlain, invalidOperator,
    lexerFailed]

/-- The code as it is shown. -/
def display : Code → String
  | unexpectedToken => "E1001"
  | unexpectedEnd => "E1002"
  | lexical => "E1003"
  | missingCallback => "E1004"
  | malformedRule => "E2001"
  | leftRecursion => "E2002"
  | undefinedName => "E2003"
  | missingStart => "E2004"
  | ebnfInPlain => "E2005"
  | invalidOperator => "E2006"
  | lexerFailed => "E2007"

/-- What the code stands for, in words. -/
def meaning : Code → String
  | unexpectedToken => "unexpected token"
  | unexpectedEnd => "unexpected end of input"
  | lexical => "lexical error"
  | missingCallback => "missing reduction callback"
  | malformedRule => "malformed rule string"
  | leftRecursion => "left-recursive grammar"
  | undefinedName => "undefined non-terminal"
  | missingStart => "missing starting rule"
  | ebnfInPlain => "EBNF construct in plain grammar"
  | invalidOperator => "invalid operator declaration"
  | lexerFailed => "lexer construction failed"

/-- Whether the error is in a text. -/
def isParseError : Code → Bool
  | unexpectedToken | unexpectedEnd | lexical | missingCallback => true
  | _ => false

/-- Whether the error is in a grammar. -/
def isGrammarError (c : Code) : Bool := !c.isParseError

/-- The code that is shown as a text. -/
def ofDisplay? (s : String) : Option Code := all.find? (·.display == s)

/-- The place of a code among all codes. -/
def index (c : Code) : Nat := all.idxOf c

/-- **A code is found by what it is shown as.** -/
theorem ofDisplay?_display (c : Code) : ofDisplay? c.display = some c := by
  cases c <;> rfl

end Code

/-- **How bad an error in a grammar is.** -/
inductive Level where
  | error | fatal
  deriving DecidableEq, Repr

namespace Level

/-- The word for the level. -/
def display : Level → String
  | error => "error"
  | fatal => "fatal"

/-- The label shown in descriptions. -/
def label : Level → String
  | error => "Error"
  | fatal => "Fatal"

end Level

end Descent
