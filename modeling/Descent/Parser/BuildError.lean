import Descent.Diagnostic.Code
import Descent.Text.Description

/-!
# Errors of building a parser

What is wrong with a grammar is found before it is used, all of it at once.
Each error has a code, a level and a message in the language that the parser
was to have.
-/

namespace Descent

/-- **One thing that is wrong with a grammar.** -/
structure BuildError where
  /-- What sort of error it is. -/
  code : Code
  /-- How bad it is. -/
  level : Level
  /-- What is wrong. -/
  message : String
  deriving DecidableEq

namespace BuildError

/-- The error on a line: its code and its message. -/
def display (e : BuildError) : String := s!"[{e.code.display}] {e.message}"

/-- The error with the names of its parts. -/
def description (e : BuildError) : Description :=
  .record "BuildError"
    [("code", .word e.code.display), ("level", .word e.level.label),
      ("message", .text e.message)] true

/-- Errors on lines of their own. -/
def displayAll (errors : List BuildError) : String :=
  "\n".intercalate (errors.map display)

/-- Whether an error of a code is among some errors. -/
def hasCode (errors : List BuildError) (code : Code) : Bool :=
  errors.any (·.code == code)

/-- Whether a fatal error is among some errors. -/
def isFatal (errors : List BuildError) : Bool :=
  errors.any (·.level == .fatal)

end BuildError

end Descent
