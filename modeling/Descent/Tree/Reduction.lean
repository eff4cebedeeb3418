import Descent.Tree.Basic

/-!
# Reduction of trees

A tree is reduced from its leaves up. A node collects the values of its
children, leaving out the discarded ones, and becomes a value itself: the
output of its callback if it stands for a rule or an operator, a list if it
stands for a repetition, an optional value if it stands for an option.

Whether an option was there is decided by its children, not by their values:
an option of discarded parts that matched is there, with an empty list.
-/

namespace Descent

/-- **A node that needs a callback and has none.** -/
structure MissingCallback where
  /-- The name of the node. -/
  node : String
  deriving DecidableEq

namespace Tree

variable {K α : Type}

/-- What an option that was there gives: the value of its part if there is one
value, else the list of the values. -/
def contentOf : List (Value K α) → Value K α
  | [v] => v
  | vs => .list vs

/-- The value of a node, given the values of its children; `matched` says
whether it has children. -/
def nodeValue (l : Label K α) (matched : Bool) (values : List (Value K α)) :
    Except MissingCallback (Value K α) :=
  match l.kind with
  | .rule | .expression =>
    match l.callback with
    | some callback => .ok (.out (callback values))
    | none => .error ⟨l.name⟩
  | .many | .group => .ok (.list values)
  | .optional =>
    .ok (.optional (if matched then some (contentOf values) else none))

mutual

/-- **The value of a tree.** -/
def value : Tree K α → Except MissingCallback (Value K α)
  | leaf t _ => .ok (.token t)
  | node l cs =>
    match liveValues cs with
    | .error e => .error e
    | .ok values => nodeValue l (!cs.isEmpty) values

/-- The values of the trees of a list that are not discarded. -/
def liveValues : List (Tree K α) → Except MissingCallback (List (Value K α))
  | [] => .ok []
  | t :: ts =>
    if t.isDiscarded then liveValues ts
    else
      match value t with
      | .error e => .error e
      | .ok v =>
        match liveValues ts with
        | .error e => .error e
        | .ok vs => .ok (v :: vs)

end

/-- **The output of a tree.** Only a rule or an operator at the root makes
one. -/
def reduce (t : Tree K α) : Except MissingCallback α :=
  match t.value with
  | .error e => .error e
  | .ok (.out x) => .ok x
  | .ok _ => .error ⟨"<root>"⟩

/-- A discarded tree adds nothing to the values. -/
theorem liveValues_cons_of_isDiscarded {t : Tree K α} (h : t.isDiscarded = true)
    (ts : List (Tree K α)) : liveValues (t :: ts) = liveValues ts := by
  rw [liveValues, if_pos h]

end Tree

end Descent
