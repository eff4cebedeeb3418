import Descent.Grammar.Clause
import Descent.Grammar.Operation

/-!
# What a rule text declares

A rule text names a non-terminal and declares something for it: either the
branches of a rule, each a sequence of clauses, or an operator. The operator
is kept as it is written; whether its symbol is a kind of token and its
precedence a number that fits is not a matter of reading the text.
-/

namespace Descent

/-- **An operator as it is written** in a rule text. -/
structure OperatorDeclaration where
  /-- Where the operator stands. -/
  affix : Affix
  /-- The name of its kind of token. -/
  symbol : String
  /-- Which way it groups, if that is written. -/
  associativity : Option Associativity
  /-- The digits of its precedence. -/
  precedence : String
  deriving DecidableEq, Repr

/-- **The right-hand side of a rule text.** -/
inductive Body (K : Type) where
  /-- Sequences of clauses, tried in order. -/
  | branches (branches : List (List (Clause K)))
  /-- An operator. -/
  | operator (declaration : OperatorDeclaration)

/-- **What a rule text declares.** -/
structure Declaration (K : Type) where
  /-- The non-terminal it is declared for. -/
  name : String
  /-- What is declared. -/
  body : Body K

/-- The empty right-hand side: one branch without clauses. -/
def Body.empty {K : Type} : Body K := .branches [[]]

end Descent
