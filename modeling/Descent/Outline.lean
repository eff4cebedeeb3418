import Descent.Value

/-!
# Outlines

An outline is the plainest output a grammar can make: the text of the calls
that reduction makes, nested as the tree is. It serves to see what callbacks
are given without writing any.

A call is the name of the production and its values between parentheses. A
token is its kind and its text, a list stands between brackets, a missing
part is an underscore, and a part that was there follows a question mark.
-/

namespace Descent.Outline

variable {K : Type} [TokenKind K]

mutual

/-- **How a value is shown.** -/
def ofValue : Value K String → String
  | .token t => s!"{TokenKind.name t.kind}'{t.text}'"
  | .out s => s
  | .list items => "[" ++ " ".intercalate (ofValues items) ++ "]"
  | .optional none => "_"
  | .optional (some v) => "?" ++ ofValue v

/-- How the values of a list are shown. -/
def ofValues : List (Value K String) → List String
  | [] => []
  | v :: vs => ofValue v :: ofValues vs

end

/-- **The callback that writes down its call.** -/
def call (production : String) : Callback K String := fun values =>
  production ++ "(" ++ ", ".intercalate (ofValues values) ++ ")"

end Descent.Outline
