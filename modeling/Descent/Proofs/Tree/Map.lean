import Descent.Tree.Basic

/-!
# Changing what is written in a tree

`Tree.map` changes the labels, the tokens and the marks of the tokens of a tree, and
keeps its shape. Trees are compared up to what such a change leaves out: up to the
names of options and repetitions, say, or up to callbacks and places.
-/

namespace Descent.Tree

variable {K α β : Type} (label : Label K α → Label K β) (token : Token K → Token K)
  (mark : Bool → Bool)

mutual

/-- **The tree with other labels, tokens and marks.** -/
def map : Tree K α → Tree K β
  | leaf t d => leaf (token t) (mark d)
  | node l cs => node (label l) (mapAll cs)

/-- The trees of a list with other labels, tokens and marks. -/
def mapAll : List (Tree K α) → List (Tree K β)
  | [] => []
  | t :: ts => map t :: mapAll ts

end

theorem mapAll_eq_map (ts : List (Tree K α)) :
    mapAll label token mark ts = ts.map (map label token mark) := by
  induction ts with
  | nil => rfl
  | cons t ts ih => rw [mapAll, ih, List.map_cons]

@[simp] theorem mapAll_append (ts us : List (Tree K α)) :
    mapAll label token mark (ts ++ us) =
      mapAll label token mark ts ++ mapAll label token mark us := by
  simp [mapAll_eq_map]

end Descent.Tree
