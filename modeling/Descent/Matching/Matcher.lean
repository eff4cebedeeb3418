import Descent.Grammar.Basic
import Descent.Matching.Run
import Descent.Token.List
import Descent.Tree.Basic

/-!
# Matching tokens against a grammar

Matching is recursive descent with ordered choice.

* A non-terminal is matched by the first of its rules that matches, each
  tried from the same index.
* A rule is matched by its clauses one after the other; a clause that fails
  fails the rule, and no clause is tried a second way.
* Options and repetitions take as much as they can. A repetition ends at the
  first iteration that fails or takes no token, which is dropped.
* A head is matched by climbing: an operand first, then operators as long as
  they bind at least as tightly as the context asks. An operator between
  operands that finds no right operand is left alone, and so is everything
  after it.

The plain style of matching knows tokens and references only; any other
clause fails in it.

## The shape of the functions

Each function takes a step budget first and spends a step on every call, so
that all of them are structurally recursive. `Matcher.budget` is a budget
large enough for every grammar without left recursion.

A clause gives the list of trees that it adds to the node around it: a group
what its members give, an option or a repetition one node of its own. So a
match that is given up leaves nothing behind but its trace.
-/

namespace Descent

/-- **How much of the clause language is matched.** -/
inductive Style where
  /-- Tokens and references only. -/
  | plain
  /-- All clauses. -/
  | ebnf
  deriving DecidableEq, Repr

namespace Style

/-- The word for the style. -/
def display : Style → String
  | plain => "plain"
  | ebnf => "ebnf"

/-- The label shown in descriptions. -/
def label : Style → String
  | plain => "Plain"
  | ebnf => "Ebnf"

/-- Whether clauses of a form are matched. -/
def allows {K : Type} : Style → Clause K → Bool
  | plain, c => c.isPlain
  | ebnf, _ => true

@[simp] theorem allows_token {K : Type} (s : Style) (kind : K) (d : Bool) :
    s.allows (.token kind d) = true := by
  cases s <;> rfl

@[simp] theorem allows_reference {K : Type} (s : Style) (name : String)
    (d : Bool) : s.allows (.reference name d : Clause K) = true := by
  cases s <;> rfl

end Style

/-- **What is matched against what.** -/
structure Matcher (K α : Type) where
  /-- The grammar. -/
  grammar : Grammar K α
  /-- How much of the clause language is matched. -/
  style : Style
  /-- The tokens. -/
  tokens : TokenList K

namespace Matcher

variable {K α : Type} [DecidableEq K] [TokenKind K]

/-- The tree of a rule over what its clauses gave. -/
def ruleTree (head : NonTerminal K α) (rule : Rule K α)
    (children : List (Tree K α)) : Tree K α :=
  .node (.rule head.name rule.callback) children

/-- The tree of an operator's application. -/
def operatorTree (head : NonTerminal K α) (operator : Operator K α)
    (children : List (Tree K α)) : Tree K α :=
  .node (.expression head.name operator.operation operator.callback) children

/-- The tree of an option or a repetition, named for its clause. -/
def clauseTree (clause : Clause K) (kind : NodeKind)
    (children : List (Tree K α)) : Tree K α :=
  .node (.bare clause.display kind) children

/-- **Matches a token of a kind.** -/
def token (m : Matcher K α) (kind : K) (r : Run K) : Outcome K (Token K) :=
  match m.tokens.get? r.index with
  | some t => if t.kind = kind then .matched t r.advance else .failed (r.expect kind)
  | none => .failed (r.expect kind)

/-- The operator before an operand that the next token is, with the token. -/
def leading? (m : Matcher K α) (head : NonTerminal K α) (r : Run K) :
    Option (Token K × Operator K α) := do
  let t ← m.tokens.get? r.index
  let o ← head.leadingOperator? t.kind
  return (t, o)

/-- The operator after an operand that the next token is, with the token: the
first one declared for its kind, if it binds tightly enough. -/
def trailing? (m : Matcher K α) (head : NonTerminal K α) (least : Nat)
    (r : Run K) : Option (Token K × Operator K α) := do
  let t ← m.tokens.get? r.index
  let o ← head.trailingOperator? t.kind
  if least ≤ o.precedence then some (t, o) else none

mutual

/-- **Matches the non-terminal of a name.** An undeclared name matches
nothing. -/
def nonTerminal (m : Matcher K α) : Nat → String → Run K → Outcome K (Tree K α)
  | 0, _, _ => .exhausted
  | n + 1, name, r =>
    match m.grammar.get? name with
    | none => .failed (r.enter name).reach
    | some head =>
      if head.isHead then m.expression n head 0 (r.enter name)
      else m.alternatives n head head.rules (r.enter name)

/-- Matches the first that matches of some rules of a non-terminal. -/
def alternatives (m : Matcher K α) :
    Nat → NonTerminal K α → List (Rule K α) → Run K → Outcome K (Tree K α)
  | 0, _, _, _ => .exhausted
  | _ + 1, _, [], r => .failed r
  | n + 1, head, rule :: rules, r =>
    ((m.sequence n rule.clauses r).map (ruleTree head rule)).orElse fun r' =>
      m.alternatives n head rules (r'.restore r.index)

/-- Matches clauses one after the other. -/
def sequence (m : Matcher K α) :
    Nat → List (Clause K) → Run K → Outcome K (List (Tree K α))
  | 0, _, _ => .exhausted
  | _ + 1, [], r => .matched [] r
  | n + 1, clause :: clauses, r =>
    (m.clause n clause r).bind fun trees r' =>
      (m.sequence n clauses r').map (trees ++ ·)

/-- **Matches a clause**, giving what it adds to the node around it. -/
def clause (m : Matcher K α) :
    Nat → Clause K → Run K → Outcome K (List (Tree K α))
  | 0, _, _ => .exhausted
  | n + 1, c, r =>
    if m.style.allows c then
      match c with
      | .token kind d => (m.token kind r).map fun t => [.leaf t d]
      | .reference name d => (m.nonTerminal n name r).map fun t => [t.setDiscarded d]
      | .group members => m.sequence n members r
      | .choice branches => m.choice n branches r
      | .optional body =>
        ((m.clause n body r).orElse fun r' => .matched [] (r'.restore r.index)).map
          fun trees => [clauseTree c .optional trees]
      | .star body =>
        (m.iterations n body r).map fun trees => [clauseTree c .many trees]
      | .plus body =>
        (m.clause n body r).bind fun first r' =>
          (m.iterations n body r').map fun more =>
            [clauseTree c .many (first ++ more)]
    else .failed r.reach

/-- Matches the first branch that matches. -/
def choice (m : Matcher K α) :
    Nat → List (Clause K) → Run K → Outcome K (List (Tree K α))
  | 0, _, _ => .exhausted
  | _ + 1, [], r => .failed r
  | n + 1, branch :: branches, r =>
    (m.clause n branch r).orElse fun r' =>
      m.choice n branches (r'.restore r.index)

/-- **Matches a clause again and again**, as long as it takes tokens. The last
iteration, which fails or takes none, is dropped. -/
def iterations (m : Matcher K α) :
    Nat → Clause K → Run K → Outcome K (List (Tree K α))
  | 0, _, _ => .exhausted
  | n + 1, body, r =>
    match m.clause n body r with
    | .exhausted => .exhausted
    | .failed r' => .matched [] (r'.restore r.index)
    | .matched trees r' =>
      if r.index < r'.index then (m.iterations n body r').map (trees ++ ·)
      else .matched [] (r'.restore r.index)

/-- **Matches an expression**: an operand and the operators after it that bind
at least as tightly as `least`. -/
def expression (m : Matcher K α) :
    Nat → NonTerminal K α → (least : Nat) → Run K → Outcome K (Tree K α)
  | 0, _, _, _ => .exhausted
  | n + 1, head, least, r =>
    (m.operand n head r).bind fun left r' => m.climb n head least left r'

/-- Goes on from an operand with the operators after it. -/
def climb (m : Matcher K α) :
    Nat → NonTerminal K α → (least : Nat) → (left : Tree K α) → Run K →
      Outcome K (Tree K α)
  | 0, _, _, _, _ => .exhausted
  | n + 1, head, least, left, r =>
    match m.trailing? head least r with
    | none => .matched left (r.expectAll (head.trailingKinds least))
    | some (t, o) =>
      match o.operation with
      | .postfixOp _ =>
        m.climb n head least (operatorTree head o [left, .leaf t false]) r.advance
      | .infixOp .. =>
        match m.expression n head o.operation.threshold r.advance with
        | .exhausted => .exhausted
        | .failed r' => .matched left (r'.restore r.index)
        | .matched right r' =>
          m.climb n head least
            (operatorTree head o [left, .leaf t false, right]) r'
      -- An operator that follows an operand does not stand before one.
      | .prefixOp _ => .matched left r

/-- **Matches an operand**: an operator before an expression that binds at
least as tightly as it does, or one of the rules of the head. -/
def operand (m : Matcher K α) :
    Nat → NonTerminal K α → Run K → Outcome K (Tree K α)
  | 0, _, _ => .exhausted
  | n + 1, head, r =>
    match m.leading? head r with
    | none => m.alternatives n head head.rules (r.expectAll head.leadingKinds)
    | some (t, o) =>
      ((m.expression n head o.precedence r.advance).map fun right =>
        operatorTree head o [.leaf t false, right]).orElse fun r' =>
          m.alternatives n head head.rules
            ((r'.restore r.index).expectAll head.leadingKinds)

end

end Matcher

end Descent
