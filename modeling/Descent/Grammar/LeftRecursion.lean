import Descent.Grammar.Cycle
import Descent.Grammar.Nullable

/-!
# Left recursion

A matcher enters what can come first in a rule before it has read a token. A
non-terminal that can reach itself that way would be entered forever. So the
grammar is laid out as a graph with an edge from a non-terminal to each one
that can come first in one of its rules, and every elementary cycle of that
graph is reported, by the names on it.

Operators are not edges: an operand is entered only after a token or in first
place, where the head's rules stand already.
-/

namespace Descent.Grammar

variable {K α : Type}

/-- The places of the non-terminals that can come first in a rule of `n`,
each once. -/
def leftmostIndices (g : Grammar K α) (nullable : String → Bool)
    (n : NonTerminal K α) : List Nat :=
  (n.rules.flatMap fun r => (r.leftmost nullable).filterMap g.indexOf?).eraseDups

/-- **The graph of what can come first in what.** -/
def leftmostGraph (g : Grammar K α) : Graph :=
  let nullable := g.nullable
  g.nonTerminals.map (g.leftmostIndices nullable.contains)

/-- The name at a place. -/
def nameAt (g : Grammar K α) (i : Nat) : String := g.names.getD i ""

/-- **The left-recursive cycles of the grammar**, by name. -/
def leftCycles (g : Grammar K α) : List (List String) :=
  g.leftmostGraph.elementaryCycles.map (·.map g.nameAt)

/-- **Whether a non-terminal can be entered from itself before any token.** -/
def isLeftRecursive (g : Grammar K α) : Bool := !g.leftCycles.isEmpty

/-- Cycles as text: a line for each, its names parted by arrow heads. -/
def renderCycles (cycles : List (List String)) : String :=
  "\n".intercalate (cycles.map (" > ".intercalate ·))

end Descent.Grammar
