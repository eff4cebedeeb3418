import Descent.Matching.Matcher

/-!
# Expressions grouped by precedence

An expression combines operands by operators. Which operands an operator takes
cannot be seen from the operands and operators in their order alone; that is what
precedences and directions are for. Two conditions say what they ask:

* whatever stands at the left edge of the operand after an operator binds at
  least as tightly as that operator asks of it, and
* whatever stands at the right edge of the operand before an operator asks of its
  own operand for more than that operator has.

The two leave one grouping at most (`Expression.eq_of_items`). The proof reads an
expression off its items as a climb does, one operand and then operators as long
as they bind tightly enough. Such a reading goes one way only (`Climbs.unique`),
and it finds every expression that meets the conditions (`Climbs.of_grouped`).
-/

namespace Descent

variable {K α : Type}

/-- **The least precedence inside the operand after an operator**: the threshold
between operands, and the operator's own precedence before its operand. -/
def Operation.bound : Operation → Nat
  | .prefixOp p => p.toNat
  | o => o.threshold

/-- What the operator asks of the operators at the left edge of the operand after
it. -/
def Operator.bound (o : Operator K α) : Nat := o.operation.bound

theorem Operator.bound_of_infixOp {o : Operator K α} {p : UInt32}
    {d : Associativity} (h : o.operation = .infixOp p d) :
    o.bound = o.operation.threshold := by
  rw [bound, h]
  rfl

theorem Operator.bound_of_prefixOp {o : Operator K α} {p : UInt32}
    (h : o.operation = .prefixOp p) : o.bound = o.precedence := by
  rw [bound, precedence, h]
  rfl

/-- **An expression**: operands, and operators on them, each of which stands
where its operation says. An operand is no operator's application. -/
inductive Expression (K α : Type) where
  /-- An operand. -/
  | operand (tree : Tree K α) (h : tree.operation? = none)
  /-- An operator before its operand. -/
  | prefixed (op : Operator K α) (h : op.operation.affix = .prefixOp)
      (t : Token K) (right : Expression K α)
  /-- An operator between its operands. -/
  | infixed (op : Operator K α) (h : op.operation.affix = .infixOp)
      (left : Expression K α) (t : Token K) (right : Expression K α)
  /-- An operator after its operand. -/
  | postfixed (op : Operator K α) (h : op.operation.affix = .postfixOp)
      (left : Expression K α) (t : Token K)

/-- **What an expression is made of**, one thing after the other. -/
inductive Item (K α : Type) where
  /-- An operand. -/
  | operand (tree : Tree K α)
  /-- An operator and its token. -/
  | operator (op : Operator K α) (t : Token K)

namespace Expression

open Matcher (operatorTree)

/-- The tree of an expression of a head. -/
def tree (head : NonTerminal K α) : Expression K α → Tree K α
  | operand t _ => t
  | prefixed op _ t right => operatorTree head op [.leaf t false, right.tree head]
  | infixed op _ left t right =>
    operatorTree head op [left.tree head, .leaf t false, right.tree head]
  | postfixed op _ left t => operatorTree head op [left.tree head, .leaf t false]

/-- **The operands and operators of an expression**, from left to right. -/
def items : Expression K α → List (Item K α)
  | operand t _ => [.operand t]
  | prefixed op _ t right => .operator op t :: right.items
  | infixed op _ left t right => left.items ++ .operator op t :: right.items
  | postfixed op _ left t => left.items ++ [.operator op t]

/-- **The operators at the left edge**: the outermost one and those of the
operands before, as far as there is an operand before. -/
def leftSpine : Expression K α → List (Operator K α)
  | operand .. | prefixed .. => []
  | infixed op _ left _ _ | postfixed op _ left _ => op :: left.leftSpine

/-- **The operators at the right edge**: the outermost one and those of the
operands after, as far as there is an operand after. -/
def rightSpine : Expression K α → List (Operator K α)
  | operand .. | postfixed .. => []
  | prefixed op _ _ right | infixed op _ _ _ right => op :: right.rightSpine

/-- **An expression is grouped by precedence** if the left edge of every operand
after an operator binds at least as tightly as the operator asks, and the right
edge of every operand before an operator asks for more than the operator has. -/
def Grouped : Expression K α → Prop
  | operand .. => True
  | prefixed op _ _ right =>
    (∀ o ∈ right.leftSpine, op.bound ≤ o.precedence) ∧ right.Grouped
  | infixed op _ left _ right =>
    (∀ o ∈ left.rightSpine, op.precedence < o.bound) ∧
      (∀ o ∈ right.leftSpine, op.bound ≤ o.precedence) ∧
      left.Grouped ∧ right.Grouped
  | postfixed op _ left _ =>
    (∀ o ∈ left.rightSpine, op.precedence < o.bound) ∧ left.Grouped

end Expression

/-! ## Reading an expression off its items -/

/-- **A climb over items**: `Climbs least left items e rest` says that `e` is read
off `items`, with operators that bind at least as tightly as `least`, and that
`rest` is left. With `left` given, `e` goes on from it. -/
inductive Climbs : Nat → Option (Expression K α) → List (Item K α) →
    Expression K α → List (Item K α) → Prop
  /-- An operand stands first. -/
  | operand {least : Nat} {t : Tree K α} (h : t.operation? = none)
      {items rest : List (Item K α)} {e : Expression K α} :
      Climbs least (some (.operand t h)) items e rest →
      Climbs least none (.operand t :: items) e rest
  /-- An operator stands first, and its operand after it. -/
  | prefixed {least : Nat} {op : Operator K α}
      (h : op.operation.affix = .prefixOp) {t : Token K}
      {items mid rest : List (Item K α)} {right e : Expression K α} :
      Climbs op.bound none items right mid →
      Climbs least (some (.prefixed op h t right)) mid e rest →
      Climbs least none (.operator op t :: items) e rest
  /-- An operator follows, and its right operand after it. -/
  | infixed {least : Nat} {op : Operator K α}
      (h : op.operation.affix = .infixOp) {t : Token K}
      {items mid rest : List (Item K α)} {left right e : Expression K α} :
      least ≤ op.precedence →
      Climbs op.bound none items right mid →
      Climbs least (some (.infixed op h left t right)) mid e rest →
      Climbs least (some left) (.operator op t :: items) e rest
  /-- An operator follows that has no right operand. -/
  | postfixed {least : Nat} {op : Operator K α}
      (h : op.operation.affix = .postfixOp) {t : Token K}
      {items rest : List (Item K α)} {left e : Expression K α} :
      least ≤ op.precedence →
      Climbs least (some (.postfixed op h left t)) items e rest →
      Climbs least (some left) (.operator op t :: items) e rest
  /-- No operator follows that binds tightly enough. -/
  | stop {least : Nat} {left : Expression K α} {items : List (Item K α)} :
      (∀ op t, items.head? = some (.operator op t) →
        op.operation.affix ≠ .prefixOp → op.precedence < least) →
      Climbs least (some left) items left items

namespace Climbs

variable {least : Nat} {left : Option (Expression K α)}
  {items rest rest' : List (Item K α)} {e f : Expression K α}

/-- **A climb goes one way.** -/
theorem unique (h : Climbs least left items e rest)
    (h' : Climbs least left items f rest') : e = f ∧ rest = rest' := by
  induction h generalizing f rest' with
  | operand ht _ ih =>
    cases h' with
    | operand _ h' => exact ih h'
  | prefixed hop _ _ ih ih' =>
    cases h' with
    | prefixed _ hright h' =>
      obtain ⟨rfl, rfl⟩ := ih hright
      exact ih' h'
  | infixed hop hle _ _ ih ih' =>
    cases h' with
    | infixed _ _ hright h' =>
      obtain ⟨rfl, rfl⟩ := ih hright
      exact ih' h'
    | postfixed hop' => cases hop.symm.trans hop'
    | stop hstop =>
      have := hstop _ _ rfl (by rw [hop]; decide)
      omega
  | postfixed hop hle _ ih =>
    cases h' with
    | infixed hop' => cases hop.symm.trans hop'
    | postfixed _ _ h' => exact ih h'
    | stop hstop =>
      have := hstop _ _ rfl (by rw [hop]; decide)
      omega
  | stop hstop =>
    cases h' with
    | infixed hop hle =>
      have := hstop _ _ rfl (by rw [hop]; decide)
      omega
    | postfixed hop hle =>
      have := hstop _ _ rfl (by rw [hop]; decide)
      omega
    | stop => exact ⟨rfl, rfl⟩

/-- **A climb finds every grouped expression** at the edge of which it can go on:
it gets to the end of the expression, if no operator that follows belongs inside
it, and goes on from there. -/
theorem of_grouped (he : e.Grouped)
    (hleast : ∀ o ∈ e.leftSpine, least ≤ o.precedence)
    (hnext : ∀ op t, rest.head? = some (.operator op t) →
      op.operation.affix ≠ .prefixOp → ∀ o ∈ e.rightSpine, op.precedence < o.bound)
    (h : Climbs least (some e) rest f rest') :
    Climbs least none (e.items ++ rest) f rest' := by
  induction e generalizing least rest f rest' with
  | operand t ht => exact .operand ht h
  | prefixed op hop t right ih =>
    have hstop : Climbs op.bound (some right) rest right rest :=
      .stop fun op' t' hhead htrail =>
        hnext op' t' hhead htrail op List.mem_cons_self
    have hright := ih he.2 he.1
      (fun op' t' hhead htrail o ho =>
        hnext op' t' hhead htrail o (List.mem_cons_of_mem _ ho)) hstop
    exact .prefixed hop hright h
  | infixed op hop left t right ihleft ihright =>
    obtain ⟨hbefore, hafter, hgleft, hgright⟩ := he
    obtain ⟨hle, hleft⟩ := List.forall_mem_cons.mp hleast
    have hstop : Climbs op.bound (some right) rest right rest :=
      .stop fun op' t' hhead htrail =>
        hnext op' t' hhead htrail op List.mem_cons_self
    have hright := ihright hgright hafter
      (fun op' t' hhead htrail o ho =>
        hnext op' t' hhead htrail o (List.mem_cons_of_mem _ ho)) hstop
    rw [Expression.items, List.append_assoc, List.cons_append]
    refine ihleft hgleft hleft (fun op' t' hhead _ => ?_)
      (.infixed hop hle hright h)
    cases hhead
    exact hbefore
  | postfixed op hop left t ih =>
    obtain ⟨hle, hleft⟩ := List.forall_mem_cons.mp hleast
    rw [Expression.items, List.append_assoc, List.cons_append, List.nil_append]
    refine ih he.2 hleft (fun op' t' hhead _ => ?_) (.postfixed hop hle h)
    cases hhead
    exact he.1

end Climbs

/-- **There is one grouping at most** of the same operands and operators. -/
theorem Expression.eq_of_items {e f : Expression K α} (he : e.Grouped)
    (hf : f.Grouped) (h : e.items = f.items) : e = f := by
  have hclimb : ∀ {e : Expression K α}, e.Grouped →
      Climbs 0 none (e.items ++ []) e [] := fun he =>
    .of_grouped he (fun _ _ => Nat.zero_le _) (fun _ _ hhead => by cases hhead)
      (.stop fun _ _ hhead => by cases hhead)
  exact ((hclimb he).unique (h ▸ hclimb hf)).1

end Descent
