import Descent.Text.Description

/-!
# Operations

An operator stands before its operand, after it, or between two. How tightly
it binds is a 32-bit precedence, higher meaning tighter; an operator between
two operands also has an associativity, which settles what happens among
operators of one precedence.

`Operation.threshold` turns the associativity into a number: the least
precedence an operator must have to be part of the right operand.
-/

namespace Descent

/-- **Where an operator stands.** -/
inductive Affix where
  | prefixOp | infixOp | postfixOp
  deriving DecidableEq, Repr

namespace Affix

/-- The usual word for the place. -/
def display : Affix → String
  | prefixOp => "prefix"
  | infixOp => "infix"
  | postfixOp => "postfix"

/-- The label shown in descriptions. -/
def label : Affix → String
  | prefixOp => "Prefix"
  | infixOp => "Infix"
  | postfixOp => "Postfix"

end Affix

/-- **Which way operators of one precedence group.** -/
inductive Associativity where
  | left | right | none
  deriving DecidableEq, Repr

namespace Associativity

/-- The usual word for the direction. -/
def display : Associativity → String
  | left => "left"
  | right => "right"
  | none => "none"

/-- The label shown in descriptions. -/
def label : Associativity → String
  | left => "Left"
  | right => "Right"
  | none => "None"

end Associativity

/-- **How an operator binds.** -/
inductive Operation where
  /-- Before its operand. -/
  | prefixOp (precedence : UInt32)
  /-- Between two operands. -/
  | infixOp (precedence : UInt32) (associativity : Associativity)
  /-- After its operand. -/
  | postfixOp (precedence : UInt32)
  deriving DecidableEq, Repr

namespace Operation

/-- Where the operator stands. -/
def affix : Operation → Affix
  | prefixOp _ => .prefixOp
  | infixOp .. => .infixOp
  | postfixOp _ => .postfixOp

/-- How tightly the operator binds. -/
def precedence : Operation → UInt32
  | prefixOp p | infixOp p _ | postfixOp p => p

/-- Which way the operator groups; one with a single operand groups no
way. -/
def associativity : Operation → Associativity
  | infixOp _ a => a
  | _ => .none

/-- Whether the operator stands between two operands. -/
def isBinary (o : Operation) : Bool := o.affix == .infixOp

/-- Whether the operator has a single operand. -/
def isUnary (o : Operation) : Bool := !o.isBinary

/-- Whether the operator follows an operand. -/
def isTrailing (o : Operation) : Bool := o.affix != .prefixOp

/-- **The least precedence inside the right operand**: an operator that groups
to the right takes its equals into it, any other takes only what binds
tighter. -/
def threshold (o : Operation) : Nat :=
  match o.associativity with
  | .right => o.precedence.toNat
  | .left | .none => o.precedence.toNat + 1

/-- The place, the precedence and, between operands, the direction. -/
def display : Operation → String
  | infixOp p a => s!"infix {p.toNat} {a.display}"
  | prefixOp p => s!"prefix {p.toNat}"
  | postfixOp p => s!"postfix {p.toNat}"

/-- The operation with the names of its parts. -/
def description (o : Operation) : Description :=
  .record "OperationMetadata"
    [("affix", .word o.affix.label), ("precedence", .nat o.precedence.toNat),
      ("associativity", .word o.associativity.label)] true

theorem precedence_le_threshold (o : Operation) :
    o.precedence.toNat ≤ o.threshold := by
  unfold threshold
  split <;> omega

end Operation

end Descent
