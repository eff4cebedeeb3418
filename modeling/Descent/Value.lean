import Descent.Token.Basic

/-!
# Values and callbacks

Every rule and operator of a grammar comes with a callback, which makes the
host's output out of what the rule matched. A callback is given one value per
matched part, in the order of the parts:

* a **token** for a token,
* an **output** for what another rule made,
* a **list** for a repetition,
* an **optional** value for a part that may be missing.
-/

namespace Descent

/-- **What a callback is given for one matched part.** -/
inductive Value (K α : Type) where
  /-- A matched token. -/
  | token (token : Token K)
  /-- The output of another callback. -/
  | out (output : α)
  /-- What the iterations of a repetition gave. -/
  | list (items : List (Value K α))
  /-- What an optional part gave, if it was there. -/
  | optional (content : Option (Value K α))

/-- **How a rule's output is made** from the values of what it matched. -/
abbrev Callback (K α : Type) := List (Value K α) → α

namespace Value

variable {K α : Type}

/-- The token of a token value. -/
def token? : Value K α → Option (Token K)
  | token t => some t
  | _ => none

/-- The output of an output value. -/
def out? : Value K α → Option α
  | out x => some x
  | _ => none

/-- The items of a list value. -/
def list? : Value K α → Option (List (Value K α))
  | list items => some items
  | _ => none

/-- The content of an optional value, which may be missing itself. -/
def optional? : Value K α → Option (Option (Value K α))
  | optional content => some content
  | _ => none

mutual

/-- The value with the cases it is made of. -/
def description [TokenKind K] (ofOutput : α → Description) :
    Value K α → Description
  | token t => .apply "Token" [t.description]
  | out x => .apply "Out" [ofOutput x]
  | list items => .apply "List" [.list (descriptions ofOutput items)]
  | optional none => .apply "Optional" [.word "None"]
  | optional (some v) =>
    .apply "Optional" [.apply "Some" [description ofOutput v]]

/-- The values of a list, each with the cases it is made of. -/
def descriptions [TokenKind K] (ofOutput : α → Description) :
    List (Value K α) → List Description
  | [] => []
  | v :: vs => description ofOutput v :: descriptions ofOutput vs

end

end Value

/-- What is shown of a callback: that there is one. -/
def Callback.description : Description := .word "Callback(..)"

end Descent
