import Descent.Grammar.Basic

/-!
# Grammars put together from additions

A grammar is put together by adding rules and operators to names, in whatever order
(`Grammar.ofAdditions`).

Looking for a name among all non-terminals takes long in a large grammar. An
`IndexedGrammar` keeps the non-terminals in slots, and a name index that leads from a
name to its slot. A name gets a slot, and an index entry, when something is first
added to it.
-/

namespace Descent

variable {K α : Type}

/-- **Something that is added to a grammar.** -/
inductive Addition (K α : Type) where
  /-- A rule for a name. -/
  | rule (head : String) (rule : Rule K α)
  /-- An operator for a name. -/
  | operator (head : String) (operator : Operator K α)

namespace Addition

/-- The name that something is added to. -/
def head : Addition K α → String
  | rule x _ | operator x _ => x

/-- What the addition makes of the non-terminal that it is added to. -/
def change : Addition K α → NonTerminal K α → NonTerminal K α
  | rule _ r, n => n.withRule r
  | operator _ o, n => n.withOperator o

end Addition

namespace Grammar

/-- Adds a rule or an operator. -/
def add (g : Grammar K α) : Addition K α → Grammar K α
  | .rule x r => g.addRule x r
  | .operator x o => g.addOperator x o

/-- **The grammar that additions make**, one after the other. -/
def ofAdditions (start : String) (additions : List (Addition K α)) : Grammar K α :=
  additions.foldl add (empty start)

end Grammar

/-- **A grammar with a name index.** -/
structure IndexedGrammar (K α : Type) where
  /-- The name of the non-terminal to start from. -/
  start : String
  /-- The non-terminals, each in its slot. -/
  slots : List (NonTerminal K α)
  /-- The names with their slots. -/
  index : List (String × Nat)

namespace IndexedGrammar

/-- The grammar without non-terminals. -/
def empty (start : String) : IndexedGrammar K α := ⟨start, [], []⟩

/-- The slot of a name. -/
def indexOf? (g : IndexedGrammar K α) (name : String) : Option Nat :=
  g.index.lookup name

/-- The non-terminal of a name. -/
def get? (g : IndexedGrammar K α) (name : String) : Option (NonTerminal K α) :=
  (g.indexOf? name).bind (g.slots[·]?)

/-- Whether a name is declared. -/
def contains (g : IndexedGrammar K α) (name : String) : Bool :=
  (g.indexOf? name).isSome

/-- The grammar with a slot for a name, and the slot: the one that the name has, or
a new one. -/
def slot (g : IndexedGrammar K α) (name : String) : IndexedGrammar K α × Nat :=
  match g.indexOf? name with
  | some i => (g, i)
  | none =>
    ({ g with
        slots := g.slots ++ [.bare name]
        index := (name, g.slots.length) :: g.index },
      g.slots.length)

/-- Adds a rule or an operator in the slot of its name. -/
def add (g : IndexedGrammar K α) (a : Addition K α) : IndexedGrammar K α :=
  let (g, i) := g.slot a.head
  { g with slots := g.slots.modify i a.change }

/-- **The indexed grammar that additions make**, one after the other. -/
def ofAdditions (start : String) (additions : List (Addition K α)) :
    IndexedGrammar K α :=
  additions.foldl add (empty start)

end IndexedGrammar

end Descent
