import Descent.Grammar.Clause
import Descent.Grammar.Operation
import Descent.Value

/-!
# Grammars

A grammar is a list of non-terminals and the name of the one to start from.
A non-terminal has rules, tried in the order in which they were added, and
operators; one with operators is the **head** of expressions, whose operands
its rules match and whose operators combine them.

Grammars are built by adding rules and operators one by one, in any order. A
non-terminal takes its place in the list when it is first mentioned by a rule
or an operator of its own; being referred to does not define it.

A grammar has one entry per name: `addRule` and `addOperator` extend the entry
of their non-terminal, and make it if there is none (`names_update`).
-/

namespace Descent

/-- **A rule** of a non-terminal: a sequence of clauses, and what to make of a
match. -/
structure Rule (K α : Type) where
  /-- What the rule matches, in order. -/
  clauses : List (Clause K)
  /-- The text the rule was read from, if any. -/
  text : String
  /-- The name of the production the rule comes from. -/
  production : String
  /-- What is made of a match. -/
  callback : Callback K α

/-- **An operator** of a head, and what to make of its applications. -/
structure Operator (K α : Type) where
  /-- The kind of token the operator is. -/
  kind : K
  /-- How the operator binds. -/
  operation : Operation
  /-- The text the operator was read from, if any. -/
  text : String
  /-- The name of the production the operator comes from. -/
  production : String
  /-- What is made of an application. -/
  callback : Callback K α

/-- **A non-terminal** with everything that was declared for it. -/
structure NonTerminal (K α : Type) where
  /-- Its name. -/
  name : String
  /-- Its rules, in the order they are tried. -/
  rules : List (Rule K α)
  /-- Its operators, in the order they were declared. -/
  operators : List (Operator K α)

/-- **A grammar.** -/
structure Grammar (K α : Type) where
  /-- The name of the non-terminal to start from. -/
  start : String
  /-- The non-terminals, in the order of their first declaration. -/
  nonTerminals : List (NonTerminal K α)
  /-- No two of them have one name. -/
  names_nodup : (nonTerminals.map (·.name)).Nodup

variable {K α : Type}

namespace Rule

/-- A rule that comes from no text. -/
def ofClauses (production : String) (clauses : List (Clause K))
    (callback : Callback K α) : Rule K α :=
  ⟨clauses, "", production, callback⟩

/-- Whether all clauses are tokens and references. -/
def isPlain (r : Rule K α) : Bool := r.clauses.all (·.isPlain)

/-- Whether the rule can match nothing, given which names can. -/
def isNullable (nullable : String → Bool) (r : Rule K α) : Bool :=
  Clause.allNullable nullable r.clauses

/-- The names that can come first in a match of the rule. -/
def leftmost (nullable : String → Bool) (r : Rule K α) : List String :=
  Clause.leftmostSeq nullable r.clauses

/-- The names referred to in the rule. -/
def references (r : Rule K α) : List String := Clause.referencesAll r.clauses

/-- **The rule as it is written in a rule text** for a non-terminal. -/
def display [TokenKind K] (head : String) (r : Rule K α) : String :=
  head ++ " :" ++
    if r.clauses.isEmpty then ""
    else " " ++ " ".intercalate (Clause.displayAll r.clauses)

/-- The rule of a non-terminal with the names of its parts. -/
def description [TokenKind K] (head : String) (r : Rule K α) : Description :=
  .record "Rule"
    [("non_terminal", .text head),
      ("clauses", .list (Clause.descriptions r.clauses)),
      ("rule_string", .text r.text), ("production", .text r.production),
      ("callback", Callback.description)] true

end Rule

namespace Operator

/-- An operator that comes from no text and is named for its kind. -/
def ofKind [TokenKind K] (kind : K) (operation : Operation)
    (callback : Callback K α) : Operator K α :=
  ⟨kind, operation, "", TokenKind.name kind, callback⟩

/-- How tightly the operator binds. -/
def precedence (o : Operator K α) : Nat := o.operation.precedence.toNat

/-- The operator with the names of its parts. -/
def description [TokenKind K] (o : Operator K α) : Description :=
  .record "Operator"
    [("kind", .word (TokenKind.label o.kind)),
      ("operation", o.operation.description), ("rule_string", .text o.text),
      ("production", .text o.production), ("callback", Callback.description)]
    true

end Operator

namespace NonTerminal

/-- A non-terminal of which nothing is declared yet. -/
def bare (name : String) : NonTerminal K α := ⟨name, [], []⟩

/-- The non-terminal with one rule more, tried after the others. -/
def withRule (n : NonTerminal K α) (rule : Rule K α) : NonTerminal K α :=
  { n with rules := n.rules ++ [rule] }

/-- The non-terminal with one operator more. -/
def withOperator (n : NonTerminal K α) (operator : Operator K α) :
    NonTerminal K α :=
  { n with operators := n.operators ++ [operator] }

/-- Whether the non-terminal is the head of expressions. -/
def isHead (n : NonTerminal K α) : Bool := !n.operators.isEmpty

/-- The first operator of a kind that stands before its operand. -/
def leadingOperator? [DecidableEq K] (n : NonTerminal K α) (kind : K) :
    Option (Operator K α) :=
  n.operators.find? fun o => o.kind == kind && !o.operation.isTrailing

/-- The first operator of a kind that follows an operand. -/
def trailingOperator? [DecidableEq K] (n : NonTerminal K α) (kind : K) :
    Option (Operator K α) :=
  n.operators.find? fun o => o.kind == kind && o.operation.isTrailing

/-- The operators that stand at a place. -/
def operatorsWith (n : NonTerminal K α) (affix : Affix) : List (Operator K α) :=
  n.operators.filter (·.operation.affix == affix)

/-- The kinds of the operators that stand before an operand. -/
def leadingKinds (n : NonTerminal K α) : List K :=
  (n.operatorsWith .prefixOp).map (·.kind)

/-- The kinds of the operators that follow an operand and bind at least as
tightly as `least`. -/
def trailingKinds (n : NonTerminal K α) (least : Nat) : List K :=
  (n.operators.filter fun o =>
    o.operation.isTrailing && decide (least ≤ o.precedence)).map (·.kind)

/-- Whether the non-terminal can match nothing, given which names can.
Operators take tokens, so only the rules count. -/
def isNullable (nullable : String → Bool) (n : NonTerminal K α) : Bool :=
  n.rules.any (·.isNullable nullable)

/-- The names referred to in the rules of the non-terminal. -/
def references (n : NonTerminal K α) : List String :=
  n.rules.flatMap (·.references)

/-- The non-terminal with the names of its parts. -/
def description [TokenKind K] (n : NonTerminal K α) : Description :=
  .record "NonTerminal"
    [("name", .text n.name),
      ("rules", .list (n.rules.map (·.description n.name))),
      ("operators", .list (n.operators.map (·.description)))] true

end NonTerminal

namespace Grammar

/-- The grammar without non-terminals. -/
def empty (start : String) : Grammar K α := ⟨start, [], List.nodup_nil⟩

/-- The number of non-terminals. -/
def size (g : Grammar K α) : Nat := g.nonTerminals.length

/-- The names of the non-terminals, in order. -/
def names (g : Grammar K α) : List String := g.nonTerminals.map (·.name)

/-- The non-terminal of a name. -/
def get? (g : Grammar K α) (name : String) : Option (NonTerminal K α) :=
  g.nonTerminals.find? (·.name == name)

/-- Whether a name is declared. -/
def contains (g : Grammar K α) (name : String) : Bool :=
  g.nonTerminals.any (·.name == name)

/-- The place of a name among the non-terminals. -/
def indexOf? (g : Grammar K α) (name : String) : Option Nat :=
  g.nonTerminals.findIdx? (·.name == name)

theorem name_withRule (rule : Rule K α) (n : NonTerminal K α) :
    (n.withRule rule).name = n.name := rfl

theorem name_withOperator (operator : Operator K α) (n : NonTerminal K α) :
    (n.withOperator operator).name = n.name := rfl

/-- Changes the entry of a name, which is put at the end if there is none. -/
def update (name : String) (f : NonTerminal K α → NonTerminal K α) :
    List (NonTerminal K α) → List (NonTerminal K α)
  | [] => [f (.bare name)]
  | n :: ns => if n.name = name then f n :: ns else n :: update name f ns

/-- **A change of an entry keeps all names**, and adds its own if it is new. -/
theorem names_update {name : String} {f : NonTerminal K α → NonTerminal K α}
    (hf : ∀ n, (f n).name = n.name) (ns : List (NonTerminal K α)) :
    (update name f ns).map (·.name) =
      if name ∈ ns.map (·.name) then ns.map (·.name)
      else ns.map (·.name) ++ [name] := by
  induction ns with
  | nil => simp [update, hf, NonTerminal.bare]
  | cons n ns ih =>
    by_cases h : n.name = name
    · simp [update, h, hf]
    · have h' : name ≠ n.name := Ne.symm h
      simp only [update, if_neg h, List.map_cons, ih, List.mem_cons, h', false_or]
      split <;> rfl

theorem names_nodup_update {name : String} {f : NonTerminal K α → NonTerminal K α}
    (hf : ∀ n, (f n).name = n.name) {ns : List (NonTerminal K α)}
    (h : (ns.map (·.name)).Nodup) : ((update name f ns).map (·.name)).Nodup := by
  rw [names_update hf]
  split
  · exact h
  · rename_i hn
    refine List.nodup_append.mpr ⟨h, by simp, fun x hx y hy => ?_⟩
    rw [List.mem_singleton.mp hy]
    exact fun hxy => hn (hxy ▸ hx)

/-- **Adds a rule** to a non-terminal, after those it has. -/
def addRule (g : Grammar K α) (head : String) (rule : Rule K α) : Grammar K α :=
  ⟨g.start, update head (·.withRule rule) g.nonTerminals,
    names_nodup_update (name_withRule rule) g.names_nodup⟩

/-- **Adds an operator** to a non-terminal, after those it has. -/
def addOperator (g : Grammar K α) (head : String) (operator : Operator K α) :
    Grammar K α :=
  ⟨g.start, update head (·.withOperator operator) g.nonTerminals,
    names_nodup_update (name_withOperator operator) g.names_nodup⟩

/-- All rules, non-terminal by non-terminal. -/
def rules (g : Grammar K α) : List (Rule K α) :=
  g.nonTerminals.flatMap (·.rules)

/-- Whether all clauses of the grammar are tokens and references. -/
def isPlain (g : Grammar K α) : Bool := g.rules.all (·.isPlain)

/-- **The references to names that are not declared**, each with the
non-terminal it occurs in; a pair is listed once, where it occurs first. -/
def undefinedReferences (g : Grammar K α) : List (String × String) :=
  (g.nonTerminals.flatMap fun n =>
    (n.references.filter (!g.contains ·)).map (n.name, ·)).eraseDups

/-- **The grammar as it is written**: a line per rule, and a line per
operator after the rules of its head. -/
def display [TokenKind K] (g : Grammar K α) : String :=
  String.join <| g.nonTerminals.flatMap fun n =>
    n.rules.map (fun r => r.display n.name ++ "\n") ++
      n.operators.map fun o =>
        s!"{n.name} : {TokenKind.name o.kind} {o.operation.display}\n"

/-! ## Short laws -/

@[simp] theorem nonTerminals_empty (start : String) :
    (empty start : Grammar K α).nonTerminals = [] := rfl

@[simp] theorem start_addRule (g : Grammar K α) (head : String)
    (rule : Rule K α) : (g.addRule head rule).start = g.start := rfl

@[simp] theorem start_addOperator (g : Grammar K α) (head : String)
    (operator : Operator K α) : (g.addOperator head operator).start = g.start :=
  rfl

/-- A name is declared exactly if it has an entry. -/
theorem contains_eq_isSome_get? (g : Grammar K α) (name : String) :
    g.contains name = (g.get? name).isSome := by
  rw [Bool.eq_iff_iff]
  simp [contains, get?]

theorem contains_iff_mem_names {g : Grammar K α} {name : String} :
    g.contains name = true ↔ name ∈ g.names := by
  simp [contains, names]

/-- A name has its place among the names. -/
theorem indexOf?_eq_names (g : Grammar K α) (name : String) :
    g.indexOf? name = g.names.findIdx? (· == name) := by
  rw [indexOf?, names, List.findIdx?_map]
  rfl

/-- The entry found for a name is of that name. -/
theorem name_of_get? {g : Grammar K α} {name : String} {n : NonTerminal K α}
    (h : g.get? name = some n) : n.name = name := by
  simpa using List.find?_some h

/-- The entry of a name is found for it. -/
theorem get?_of_mem {g : Grammar K α} {n : NonTerminal K α}
    (hn : n ∈ g.nonTerminals) : g.get? n.name = some n := by
  have key : ∀ ns : List (NonTerminal K α), (ns.map (·.name)).Nodup → n ∈ ns →
      ns.find? (·.name == n.name) = some n := by
    intro ns
    induction ns with
    | nil => exact fun _ h => absurd h List.not_mem_nil
    | cons m ns ih =>
      intro hnodup hn
      rw [List.map_cons, List.nodup_cons] at hnodup
      rcases List.mem_cons.mp hn with rfl | hn
      · simp
      · have hne : m.name ≠ n.name := fun h =>
          hnodup.1 (h ▸ List.mem_map_of_mem hn)
        simpa [hne] using ih hnodup.2 hn
  exact key g.nonTerminals g.names_nodup hn

end Grammar

end Descent
