import Descent.Grammar.Cycle

/-!
# The search for cycles, round by round

`Graph.elementaryCycles` follows edges by calling itself. The same search can be
done in rounds, without calls: a stack says which nodes have been entered and how
many edges of each have been followed, the path is the way to the node on top of
the stack, and every node is marked while it is on the path. A round takes the
next edge of the node on top, or leaves that node if it has no edge left.

A round can put a node on the stack again that was taken off before, so that no
count of nodes or edges bounds the number of rounds. `Search.run` is given a number
of rounds and has no answer if they do not suffice.
-/

namespace Descent.Graph

/-- **A search under way.** -/
structure Search where
  /-- The nodes of the path, the last one first. -/
  path : List Nat
  /-- The nodes entered and not yet left, the last one first, each with the number
  of its edges that have been followed. -/
  stack : List (Nat × Nat)
  /-- For each node whether it is on the path. -/
  marks : List Bool
  /-- The cycles found so far, in order. -/
  found : List (List Nat)

namespace Search

/-- The search before a start: nothing is on the path, and nothing is marked. -/
def idle (g : Graph) (found : List (List Nat)) : Search :=
  ⟨[], [], List.replicate g.length false, found⟩

/-- The search at the start from a node. -/
def enter (s : Search) (least : Nat) : Search :=
  ⟨[least], [(least, 0)], s.marks.set least true, s.found⟩

/-- Leaves the node on top of the stack, which is the last one of the path. -/
def leave (s : Search) : Search where
  path := s.path.tail
  stack := s.stack.tail
  marks := match s.path with
    | [] => s.marks
    | v :: _ => s.marks.set v false
  found := s.found

/-- **One round of the search** from `least`; there is none once the stack is
empty. An edge back to `least` closes a cycle, and an edge to a later node that is
not marked is followed. -/
def step (g : Graph) (least : Nat) (s : Search) : Option Search :=
  match s.stack with
  | [] => none
  | (v, followed) :: below =>
    match (g.successors v)[followed]? with
    | none => some s.leave
    | some w =>
      let stack := (v, followed + 1) :: below
      if w = least then
        some { s with stack, found := s.found ++ [(least :: s.path).reverse] }
      else if least < w ∧ s.marks[w]? = some false then
        some ⟨w :: s.path, (w, 0) :: stack, s.marks.set w true, s.found⟩
      else some { s with stack }

/-- Rounds until there is none, if that takes fewer than `rounds`. -/
def run (g : Graph) (least : Nat) : (rounds : Nat) → Search → Option Search
  | 0, _ => none
  | rounds + 1, s =>
    match s.step g least with
    | none => some s
    | some s' => run g least rounds s'

end Search

/-- **The search from every node in turn**, each time with a number of rounds. -/
def search (g : Graph) (rounds : Nat) : Option Search :=
  (List.range g.length).foldlM
    (fun s least => Search.run g least rounds (s.enter least)) (Search.idle g [])

end Descent.Graph
