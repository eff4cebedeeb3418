import Descent.Grammar.Operation
import Descent.Value

/-!
# Syntax trees

A successful match is a tree. Its leaves are tokens; its inner nodes say what
matched: a rule, the application of an operator, a repetition or an option.
Groups and choices leave no node: what they match joins the children of the
node around them. A host that builds trees by hand can still make group nodes,
and `Tree.push` dissolves them.

The tokens of a tree, from left to right, are `Tree.tokens`.
-/

namespace Descent

/-- **What a node stands for.** -/
inductive NodeKind where
  | rule | expression | many | optional | group
  deriving DecidableEq, Repr

namespace NodeKind

/-- The label shown in descriptions. -/
def label : NodeKind → String
  | rule => "Rule"
  | expression => "Expression"
  | many => "Many"
  | optional => "Optional"
  | group => "Group"

/-- The word for the kind. -/
def display : NodeKind → String
  | rule => "rule"
  | expression => "expression"
  | many => "many"
  | optional => "optional"
  | group => "group"

end NodeKind

/-- **What is written on a node**, its children aside. -/
structure Label (K α : Type) where
  /-- The name of the node. -/
  name : String
  /-- What the node stands for. -/
  kind : NodeKind
  /-- The operation of an operator's application. -/
  operation : Option Operation
  /-- What is made of the children. -/
  callback : Option (Callback K α)
  /-- Whether callbacks are not shown the node. -/
  discarded : Bool

/-- **A syntax tree.** -/
inductive Tree (K α : Type) where
  /-- A token; callbacks are not shown a discarded one. -/
  | leaf (token : Token K) (discarded : Bool)
  /-- A node over its children. -/
  | node (label : Label K α) (children : List (Tree K α))

variable {K α : Type}

namespace Label

/-- A node without operation and callback. -/
def bare (name : String) (kind : NodeKind) : Label K α :=
  ⟨name, kind, none, none, false⟩

/-- A rule's node. -/
def rule (name : String) (callback : Callback K α) : Label K α :=
  ⟨name, .rule, none, some callback, false⟩

/-- The node of an operator's application. -/
def expression (name : String) (operation : Operation)
    (callback : Callback K α) : Label K α :=
  ⟨name, .expression, some operation, some callback, false⟩

/-- The node of a group, which dissolves when it is pushed. -/
def group : Label K α := bare "" .group

end Label

namespace Tree

/-- Whether callbacks are not shown the tree. -/
def isDiscarded : Tree K α → Bool
  | leaf _ d => d
  | node l _ => l.discarded

/-- The tree with its discard mark set. -/
def setDiscarded (d : Bool) : Tree K α → Tree K α
  | leaf t _ => leaf t d
  | node l cs => node { l with discarded := d } cs

/-- The children of a node. -/
def children : Tree K α → List (Tree K α)
  | leaf .. => []
  | node _ cs => cs

/-- What is written on a node. -/
def label? : Tree K α → Option (Label K α)
  | leaf .. => none
  | node l _ => some l

/-- The token of a leaf. -/
def token? : Tree K α → Option (Token K)
  | leaf t _ => some t
  | node .. => none

/-- Whether the tree is a node. -/
def isNode (t : Tree K α) : Bool := t.label?.isSome

/-- Whether the tree is a group's node. -/
def isGroup (t : Tree K α) : Bool :=
  t.label?.any (·.kind == .group)

/-- The children that are nodes. -/
def childNodes (t : Tree K α) : List (Tree K α) := t.children.filter isNode

/-- The operation of an operator's application. -/
def operation? (t : Tree K α) : Option Operation := t.label?.bind (·.operation)

/-! ## Building by hand -/

/-- What a tree adds to the children of the node it is pushed on: a group its
children, any other tree itself. -/
def spliced (t : Tree K α) : List (Tree K α) :=
  if t.isGroup then t.children else [t]

/-- **Adds a tree to the children of a node**, dissolving a group. -/
def push : Tree K α → Tree K α → Tree K α
  | leaf t d, _ => leaf t d
  | node l cs, child => node l (cs ++ child.spliced)

/-! ## The parts of an operator's application -/

/-- The operand before the operator. -/
def left? (t : Tree K α) : Option (Tree K α) := do
  match (← t.operation?).affix with
  | .infixOp | .postfixOp => t.children[0]?
  | .prefixOp => none

/-- The operand after the operator. -/
def right? (t : Tree K α) : Option (Tree K α) := do
  match (← t.operation?).affix with
  | .infixOp => t.children[2]?
  | .prefixOp => t.children[1]?
  | .postfixOp => none

/-- The operator itself. -/
def operator? (t : Tree K α) : Option (Token K) := do
  match (← t.operation?).affix with
  | .prefixOp => (← t.children[0]?).token?
  | .infixOp | .postfixOp => (← t.children[1]?).token?

/-! ## Walks -/

mutual

/-- **The tokens of a tree**, from left to right. -/
def tokens : Tree K α → List (Token K)
  | leaf t _ => [t]
  | node _ cs => tokensAll cs

/-- The tokens of a list of trees. -/
def tokensAll : List (Tree K α) → List (Token K)
  | [] => []
  | t :: ts => tokens t ++ tokensAll ts

end

mutual

/-- The nodes of a tree, each before its children and with its depth below a
given one. -/
def nodesFrom (depth : Nat) : Tree K α → List (Tree K α × Nat)
  | leaf .. => []
  | node l cs => (node l cs, depth) :: nodesOfAll (depth + 1) cs

/-- The nodes of a list of trees. -/
def nodesOfAll (depth : Nat) : List (Tree K α) → List (Tree K α × Nat)
  | [] => []
  | t :: ts => nodesFrom depth t ++ nodesOfAll depth ts

end

/-- The nodes of a tree with their depths. -/
def nodes (t : Tree K α) : List (Tree K α × Nat) := t.nodesFrom 0

mutual

/-- The tree with the names of its parts. -/
def description [TokenKind K] : Tree K α → Description
  | leaf t _ => t.description
  | node l cs =>
    .record "SyntaxNode"
      [("name", .text l.name), ("kind", .word l.kind.label),
        ("operation", .option (l.operation.map (·.description))),
        ("discarded", .bool l.discarded), ("children", .list (descriptions cs))]
      false

/-- The trees of a list, each with the names of its parts. -/
def descriptions [TokenKind K] : List (Tree K α) → List Description
  | [] => []
  | t :: ts => description t :: descriptions ts

end

/-! ## Short laws -/

theorem tokensAll_eq_flatMap (ts : List (Tree K α)) :
    tokensAll ts = ts.flatMap tokens := by
  induction ts with
  | nil => rfl
  | cons t ts ih => rw [tokensAll, ih, List.flatMap_cons]

@[simp] theorem tokensAll_append (ts us : List (Tree K α)) :
    tokensAll (ts ++ us) = tokensAll ts ++ tokensAll us := by
  simp [tokensAll_eq_flatMap]

@[simp] theorem tokens_setDiscarded (d : Bool) (t : Tree K α) :
    (t.setDiscarded d).tokens = t.tokens := by
  cases t <;> simp [setDiscarded, tokens]

@[simp] theorem isDiscarded_setDiscarded (d : Bool) (t : Tree K α) :
    (t.setDiscarded d).isDiscarded = d := by
  cases t <;> rfl

@[simp] theorem setDiscarded_setDiscarded (d e : Bool) (t : Tree K α) :
    (t.setDiscarded e).setDiscarded d = t.setDiscarded d := by
  cases t <;> rfl

@[simp] theorem setDiscarded_isDiscarded (t : Tree K α) :
    t.setDiscarded t.isDiscarded = t := by
  cases t <;> rfl

@[simp] theorem isGroup_setDiscarded (d : Bool) (t : Tree K α) :
    (t.setDiscarded d).isGroup = t.isGroup := by
  cases t <;> rfl

/-- A tree with the mark that it has. -/
theorem setDiscarded_of_eq {t : Tree K α} {d : Bool} (h : t.isDiscarded = d) :
    t.setDiscarded d = t := by
  rw [← h, setDiscarded_isDiscarded]

/-- Dissolving a group keeps its tokens. -/
@[simp] theorem tokensAll_spliced (t : Tree K α) :
    tokensAll t.spliced = t.tokens := by
  unfold spliced
  split
  · cases t <;> simp_all [isGroup, label?, children, tokens]
  · simp [tokensAll]

/-- A group dissolves when it is pushed. -/
@[simp] theorem push_group (l : Label K α) (cs us : List (Tree K α)) :
    (node l cs).push (node .group us) = node l (cs ++ us) := rfl

/-- Any other tree is pushed as it is. -/
theorem push_of_isGroup_eq_false {t : Tree K α} (h : t.isGroup = false)
    (l : Label K α) (cs : List (Tree K α)) :
    (node l cs).push t = node l (cs ++ [t]) := by
  simp [push, spliced, h]

/-- Pushing a tree on a node adds its tokens at the end. -/
theorem tokens_push_node (l : Label K α) (cs : List (Tree K α)) (t : Tree K α) :
    ((node l cs).push t).tokens = tokensAll cs ++ t.tokens := by
  simp [push, tokens]

end Tree

end Descent
