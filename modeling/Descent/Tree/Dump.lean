import Descent.Tree.Basic

/-!
# Trees as indented text

`Tree.dump` writes a tree for human eyes, a line per node and token. A line
is indented by two blanks for each step down from the root. Nodes follow a
plus sign: their name, the operation in angle brackets if there is one, and
the discard mark. Tokens follow a minus sign: the name of their kind and
their quoted text, and the discard mark.
-/

namespace Descent.Tree

variable {K α : Type} [TokenKind K]

/-- The blanks in front of a line. -/
def indent (depth : Nat) : String :=
  String.ofList (List.replicate (2 * depth) ' ')

/-- The discard mark at the end of a line. -/
def markText (discarded : Bool) : String := if discarded then " [d]" else ""

/-- What is written of an operation. -/
def operationText : Option Operation → String
  | none => ""
  | some o => s!" <{o.display}>"

/-- The line of a token. -/
def leafLine (t : Token K) (discarded : Bool) : String :=
  s!"- {TokenKind.name t.kind} {quoted t.text}{markText discarded}"

/-- The line of a node. -/
def nodeLine (l : Label K α) : String :=
  s!"+ {l.name}{operationText l.operation}{markText l.discarded}"

mutual

/-- The lines of a tree at a depth. -/
def dumpLines (depth : Nat) : Tree K α → List String
  | leaf t d => [indent depth ++ leafLine t d]
  | node l cs => (indent depth ++ nodeLine l) :: dumpLinesAll (depth + 1) cs

/-- The lines of a list of trees at a depth. -/
def dumpLinesAll (depth : Nat) : List (Tree K α) → List String
  | [] => []
  | t :: ts => dumpLines depth t ++ dumpLinesAll depth ts

end

/-- **The tree as indented text.** -/
def dump (t : Tree K α) : String :=
  String.join ((t.dumpLines 0).map (· ++ "\n"))

end Descent.Tree
