import Descent.Grammar.Basic

/-!
# Which non-terminals can match nothing

A non-terminal is nullable if one of its rules consists of clauses that can
all match nothing, which may hang on other non-terminals being nullable. The
set is computed by passes over the grammar: each pass adds what has become
nullable, in the order of declaration, and sees what it has added itself. The
passes end when one adds nothing; since a pass that does not end them adds a
name, there are no more of them than names, and one.
-/

namespace Descent.Grammar

variable {K α : Type}

/-- Adds a non-terminal to the names known to be nullable, if it is nullable
by them. -/
def addNullable (known : List String) (n : NonTerminal K α) : List String :=
  if known.contains n.name then known
  else if n.isNullable known.contains then known ++ [n.name]
  else known

/-- One pass over the non-terminals. -/
def nullablePass (g : Grammar K α) (known : List String) : List String :=
  g.nonTerminals.foldl addNullable known

/-- Passes over the non-terminals until one adds nothing. -/
def nullableFrom (g : Grammar K α) : (passes : Nat) → List String → List String
  | 0, known => known
  | passes + 1, known =>
    let next := g.nullablePass known
    if next.length = known.length then known else nullableFrom g passes next

/-- **The names of the nullable non-terminals**, in the order in which they
are found. -/
def nullable (g : Grammar K α) : List String :=
  g.nullableFrom (g.size + 1) []

end Descent.Grammar
