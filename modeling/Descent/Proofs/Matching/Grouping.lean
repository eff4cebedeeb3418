import Descent.Proofs.Matching.Peg
import Descent.Proofs.Tree.Expression

/-!
# The tree of an expression is the one that precedence asks for

Climbing builds the tree of an expression that is grouped by precedence
(`Grammar.Peg.builds`). What makes the induction go through is what is known
where an expression ends: whatever operator could go on from there, with its
right operand if it needs one, has a precedence below all that the right edge of
the expression asks for. An operator that finds no right operand could not go on
from there, whoever tries it, because what is meant at some tokens does not
depend on who asks.

Of all groupings of the same operands and operators it is the only one
(`Matcher.expression_grouped`).
-/

namespace Descent

variable {K α : Type}

open Matcher (ruleTree operatorTree clauseTree)

namespace Expression

/-- **An expression is of a head**: its operands are rules of the head, and its
operators are the first that the head declares for their tokens, before an
operand or after one. -/
def Of [DecidableEq K] (head : NonTerminal K α) : Expression K α → Prop
  | operand t _ => ∃ rule ∈ head.rules, ∃ us, t = ruleTree head rule us
  | prefixed op _ t right =>
    head.leadingOperator? t.kind = some op ∧ right.Of head
  | infixed op _ left t right =>
    head.trailingOperator? t.kind = some op ∧ left.Of head ∧ right.Of head
  | postfixed op _ left t =>
    head.trailingOperator? t.kind = some op ∧ left.Of head

end Expression

namespace Grammar

variable [DecidableEq K] [TokenKind K] {g : Grammar K α} {s : Style}
  {head : NonTerminal K α} {least : Nat} {ts : List (Token K)}
  {e : Expression K α} {op : Operator K α}

/-- **An operator can go on** from an operand that ends before some tokens: it
stands first and, if it needs a right operand, finds one. -/
def Continues (g : Grammar K α) (s : Style) (head : NonTerminal K α)
    (op : Operator K α) (ts : List (Token K)) : Prop :=
  ∃ t rest, ts = t :: rest ∧ head.trailingOperator? t.kind = some op ∧
    ∀ p d, op.operation = .infixOp p d →
      ¬ g.Peg s (.expression head op.operation.threshold) rest none

/-- **What is known of an expression that ends before some tokens.** -/
structure Ends (g : Grammar K α) (s : Style) (head : NonTerminal K α)
    (least : Nat) (e : Expression K α) (ts : List (Token K)) : Prop where
  /-- It is an expression of the head. -/
  of : e.Of head
  /-- It is grouped by precedence. -/
  grouped : e.Grouped
  /-- Its left edge binds tightly enough. -/
  left : ∀ o ∈ e.leftSpine, least ≤ o.precedence
  /-- Whatever can go on from it does not belong inside it. -/
  right : ∀ op, g.Continues s head op ts →
    ∀ o ∈ e.rightSpine, op.precedence < o.bound

/-- Nothing that binds tightly enough can go on from some tokens. -/
def Settles (g : Grammar K α) (s : Style) (head : NonTerminal K α) (least : Nat)
    (ts : List (Token K)) : Prop :=
  ∀ op, g.Continues s head op ts → op.precedence < least

end Grammar

open Grammar (Peg Continues Ends Settles)

/-- **What the goals of an expression build**, if they match. -/
def Goal.Builds [DecidableEq K] [TokenKind K] (g : Grammar K α) (s : Style)
    (ts : List (Token K)) :
    Goal K α → Option (List (Tree K α) × List (Token K)) → Prop
  | .rules head rs, some (us, _) =>
    ∃ rule ∈ rs, ∃ vs, us = [ruleTree head rule vs]
  | .operand head, some (us, rest) =>
    ∃ e : Expression K α, us = [e.tree head] ∧ e.leftSpine = [] ∧
      ∀ least, g.Ends s head least e rest
  | .expression head least, some (us, rest) =>
    ∃ e : Expression K α, us = [e.tree head] ∧ g.Ends s head least e rest ∧
      g.Settles s head least rest
  | .climb head least left, some (us, rest) =>
    ∀ e₀ : Expression K α, left = e₀.tree head → g.Ends s head least e₀ ts →
      ∃ e : Expression K α, us = [e.tree head] ∧ g.Ends s head least e rest ∧
        g.Settles s head least rest
  | _, _ => True

namespace Grammar

variable [DecidableEq K] [TokenKind K] {g : Grammar K α} {s : Style}
  {head : NonTerminal K α} {least : Nat} {ts : List (Token K)}
  {goal : Goal K α} {a : Option (List (Tree K α) × List (Token K))}

/-! ## Where expressions end -/

/-- A rule of the head is an operand, whatever follows. -/
theorem ends_operand {rule : Rule K α} (hrule : rule ∈ head.rules)
    (us : List (Tree K α)) :
    g.Ends s head least (.operand (ruleTree head rule us) rfl) ts where
  of := ⟨rule, hrule, us, rfl⟩
  grouped := trivial
  left _ h := absurd h List.not_mem_nil
  right _ _ _ h := absurd h List.not_mem_nil

/-- An operator between operands ends where its right operand does, if that took
all that it could. -/
theorem Ends.infixed {left right : Expression K α} {t : Token K}
    {mid : List (Token K)} {p : UInt32} {d : Associativity}
    (hp : op.operation = .infixOp p d)
    (hop : head.trailingOperator? t.kind = some op) (hle : least ≤ op.precedence)
    (hleft : g.Ends s head least left ts) (hgoes : g.Continues s head op ts)
    (hright : g.Ends s head op.operation.threshold right mid)
    (hsettles : g.Settles s head op.operation.threshold mid) :
    g.Ends s head least (.infixed op (by rw [hp]; rfl) left t right) mid := by
  rw [← Operator.bound_of_infixOp hp] at hright hsettles
  refine ⟨⟨hop, hleft.of, hright.of⟩,
    ⟨hleft.right op hgoes, hright.left, hleft.grouped, hright.grouped⟩,
    List.forall_mem_cons.mpr ⟨hle, hleft.left⟩, fun op' hop' => ?_⟩
  exact List.forall_mem_cons.mpr ⟨hsettles op' hop', hright.right op' hop'⟩

/-- An operator after its operand has no right edge. -/
theorem Ends.postfixed {left : Expression K α} {t : Token K}
    {mid : List (Token K)} {p : UInt32} (hp : op.operation = .postfixOp p)
    (hop : head.trailingOperator? t.kind = some op) (hle : least ≤ op.precedence)
    (hleft : g.Ends s head least left ts) (hgoes : g.Continues s head op ts) :
    g.Ends s head least (.postfixed op (by rw [hp]; rfl) left t) mid where
  of := ⟨hop, hleft.of⟩
  grouped := ⟨hleft.right op hgoes, hleft.grouped⟩
  left := List.forall_mem_cons.mpr ⟨hle, hleft.left⟩
  right _ _ _ h := absurd h List.not_mem_nil

/-- An operator before its operand has no left edge, and ends where its operand
does. -/
theorem Ends.prefixed {right : Expression K α} {t : Token K} {p : UInt32}
    (hp : op.operation = .prefixOp p)
    (hop : head.leadingOperator? t.kind = some op)
    (hright : g.Ends s head op.precedence right ts)
    (hsettles : g.Settles s head op.precedence ts) :
    g.Ends s head least (.prefixed op (by rw [hp]; rfl) t right) ts := by
  rw [← Operator.bound_of_prefixOp hp] at hright hsettles
  refine ⟨⟨hop, hright.of⟩, ⟨hright.left, hright.grouped⟩,
    fun _ h => absurd h List.not_mem_nil, fun op' hop' => ?_⟩
  exact List.forall_mem_cons.mpr ⟨hsettles op' hop', hright.right op' hop'⟩

/-- What the rules of a head build, its operands build. -/
theorem builds_operand (h : (Goal.rules head head.rules).Builds g s ts a) :
    (Goal.operand head).Builds g s ts a := by
  cases a with
  | none => trivial
  | some answer =>
    obtain ⟨us, rest⟩ := answer
    obtain ⟨rule, hrule, vs, rfl⟩ := h
    exact ⟨.operand (ruleTree head rule vs) rfl, rfl, rfl,
      fun _ => ends_operand hrule vs⟩

/-- **What an expression means is grouped by precedence.** -/
theorem Peg.builds (h : g.Peg s goal ts a) : goal.Builds g s ts a := by
  induction h with
  | undeclared | head | plain | noRule | done | andThen | stuck | stuckAfter
  | refused | token | noToken | reference | noReference | group | choice | optional
  | optionalNone | star | plus | plusNone | branch | noBranch | stop | still
  | again | noOperand => trivial
  | rule heq _ _ _ ih =>
    exact ⟨_, heq ▸ List.mem_append_right _ List.mem_cons_self, _, rfl⟩
  | @fromOperand n least ts mid left a _ _ ih ih' =>
    obtain ⟨e, he, _, hends⟩ := ih
    cases a with
    | none => trivial
    | some answer => exact ih' e (List.cons.inj he).1 (hends least)
  | @noOperator n least left ts hop =>
    rintro e rfl hends
    refine ⟨e, rfl, hends, ?_⟩
    rintro op ⟨t, rest, rfl, hop', _⟩
    exact hop t op rfl hop'
  | @noRight n least left t ts op p d hop _ hp hright _ =>
    -- the one operator that could go on from here does not
    rintro e rfl hends
    refine ⟨e, rfl, hends, ?_⟩
    rintro op' ⟨t', rest, heq, hop', hfind⟩
    cases heq
    obtain rfl := Option.some.inj (hop.symm.trans hop')
    exact absurd hright (hfind p d hp)
  | @infixed n least left right t ts mid op p d a hop hle hp hright _ ih ih' =>
    cases a with
    | none => trivial
    | some answer =>
      rintro e rfl hends
      obtain ⟨e', he', hends', hsettles⟩ := ih
      obtain rfl := (List.cons.inj he').1
      have hgoes : g.Continues s n op (t :: ts) :=
        ⟨t, ts, rfl, hop, fun _ _ _ hnone => by cases hright.unique hnone⟩
      exact ih' (.infixed op (by rw [hp]; rfl) e t e') rfl
        (hends.infixed hp hop hle hgoes hends' hsettles)
  | @postfixed n least left t ts op p a hop hle hp _ ih =>
    cases a with
    | none => trivial
    | some answer =>
      rintro e rfl hends
      have hgoes : g.Continues s n op (t :: ts) :=
        ⟨t, ts, rfl, hop, fun _ _ hinfix => by cases hp.symm.trans hinfix⟩
      exact ih (.postfixed op (by rw [hp]; rfl) e t) rfl
        (hends.postfixed hp hop hle hgoes)
  | @prefixed n t ts rest op right hop _ ih =>
    obtain ⟨e, he, hends, hsettles⟩ := ih
    obtain rfl := (List.cons.inj he).1
    obtain ⟨_, _, p, hp⟩ := NonTerminal.of_leadingOperator? hop
    exact ⟨.prefixed op (by rw [hp]; rfl) t e, rfl, rfl,
      fun _ => hends.prefixed hp hop hsettles⟩
  | prefixNone _ _ _ _ ih | noPrefix _ _ ih => exact builds_operand ih

end Grammar

/-- **The tree of an expression is the one that precedence asks for.** Whatever
the head, its operators and the context, the tree that the matcher gives is that
of an expression of the head that is grouped by precedence, and every expression
of the same operands and operators that is grouped by precedence has this
tree. -/
theorem Matcher.expression_grouped [DecidableEq K] [TokenKind K]
    (m : Matcher K α) {n : Nat} {head : NonTerminal K α} {least : Nat}
    {r r' : Run K} {tree : Tree K α}
    (h : m.expression n head least r = .matched tree r') :
    ∃ e : Expression K α, e.tree head = tree ∧ e.Of head ∧ e.Grouped ∧
      (∀ o ∈ e.leftSpine, least ≤ o.precedence) ∧
      ∀ f : Expression K α, f.items = e.items → f.Grouped → f.tree head = tree := by
  have hatt : m.Attempt (.expression head least) r (.matched [tree] r') :=
    attempt_of_matched (n := n) (by rw [outcome, h, Outcome.map_matched])
  obtain ⟨e, he, hends, _⟩ := hatt.peg.builds
  obtain rfl := (List.cons.inj he).1
  refine ⟨e, rfl, hends.of, hends.grouped, hends.left, fun f hitems hf => ?_⟩
  rw [Expression.eq_of_items hf hends.grouped hitems]

namespace Script

/-- The head of sums. -/
def sumHead : NonTerminal ScriptKind Unit := sums.nonTerminals[2]

/-- The tokens of `-1! + 2 + 3`. -/
def signedSum : TokenList ScriptKind :=
  .withStop
    [.unplaced .minus "-", .unplaced .num "1", .unplaced .bang "!",
      .unplaced .plus "+", .unplaced .num "2", .unplaced .plus "+",
      .unplaced .num "3"] .start

/-- The tree of a number as a sum. -/
def numberTree (text : String) : Tree ScriptKind Unit :=
  .node (.rule "sum" fun _ => ()) [.leaf (.unplaced .num text) false]

/-- The tree of an operator of sums over its operands and itself. -/
def sumTree (operation : Operation) (children : List (Tree ScriptKind Unit)) :
    Tree ScriptKind Unit :=
  .node (.expression "sum" operation fun _ => ()) children

/-- The tree of `((-(1!)) + 2) + 3`. -/
def signedSumTree : Tree ScriptKind Unit :=
  sumTree (.infixOp 10 .left)
    [sumTree (.infixOp 10 .left)
      [sumTree (.prefixOp 20)
        [.leaf (.unplaced .minus "-") false,
          sumTree (.postfixOp 30)
            [numberTree "1", .leaf (.unplaced .bang "!") false]],
        .leaf (.unplaced .plus "+") false, numberTree "2"],
      .leaf (.unplaced .plus "+") false, numberTree "3"]

theorem signedSum_grouped :
    (∃ r, (Matcher.mk sums .ebnf signedSum).expression 20 sumHead 0 .start =
      .matched signedSumTree r) ∧
    ∃ e : Expression ScriptKind Unit, e.tree sumHead = signedSumTree ∧
      e.Of sumHead ∧ e.Grouped ∧
      ∀ f : Expression ScriptKind Unit, f.items = e.items → f.Grouped →
        f.tree sumHead = signedSumTree := by
  have h : ∃ r, (Matcher.mk sums .ebnf signedSum).expression 20 sumHead 0 .start =
      .matched signedSumTree r := ⟨_, rfl⟩
  obtain ⟨r, hr⟩ := h
  obtain ⟨e, he, hof, hgrouped, _, hone⟩ := Matcher.expression_grouped _ hr
  exact ⟨⟨r, hr⟩, e, he, hof, hgrouped, hone⟩

end Script

end Descent
