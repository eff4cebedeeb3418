import Descent.Text.Position
import Descent.Text.Quoted

/-!
# Descriptions of values

A `Description` is what a developer is shown of a value: the shape of the
value with the names of its parts, for logs and failing checks. Every type of
the library that can be shown has a function `describe` into this one type,
and the one function `Description.render` writes it on a line.

| shape | written |
|---|---|
| word | as it is |
| text | in quotes |
| list | between brackets, parted by commas |
| application | name, then the arguments between parentheses |
| record | name, then the fields between braces; two dots for fields left out |
-/

namespace Descent

/-- **What is shown of a value.** -/
inductive Description where
  /-- A word written as it is. -/
  | word (text : String)
  /-- A text, shown in quotes. -/
  | text (text : String)
  /-- Several values in order. -/
  | list (items : List Description)
  /-- A case of a type with what it holds. -/
  | apply (name : String) (arguments : List Description)
  /-- A value with named parts; `whole` says that all of them are listed. -/
  | record (name : String) (fields : List (String × Description)) (whole : Bool)

namespace Description

mutual

/-- **The description on one line.** -/
def render : Description → String
  | word s => s
  | text s => quoted s
  | list items => "[" ++ ", ".intercalate (renderAll items) ++ "]"
  | apply name arguments =>
    name ++ "(" ++ ", ".intercalate (renderAll arguments) ++ ")"
  | record name fields whole =>
    let parts := renderFields fields ++ if whole then [] else [".."]
    name ++ " \x7b " ++ ", ".intercalate parts ++ " \x7d"

/-- The descriptions of a list, each on its own. -/
def renderAll : List Description → List String
  | [] => []
  | d :: ds => render d :: renderAll ds

/-- The fields of a record, each after its name. -/
def renderFields : List (String × Description) → List String
  | [] => []
  | (name, d) :: fields => (name ++ ": " ++ render d) :: renderFields fields

end

/-- A number. -/
def nat (n : Nat) : Description := word (toString n)

/-- A truth value. -/
def bool (b : Bool) : Description := word (toString b)

/-- A value that may be missing. -/
def option : Option Description → Description
  | none => word "None"
  | some d => apply "Some" [d]

end Description

/-- The description of a position. -/
def Position.description (p : Position) : Description :=
  .record "Position"
    [("line", .nat p.line.toNat), ("column", .nat p.column.toNat),
      ("offset", .nat p.offset.toNat)] true

end Descent
