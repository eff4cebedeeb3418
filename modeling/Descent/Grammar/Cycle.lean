/-!
# Elementary cycles of a graph

A graph is given by the successors of each of its nodes, which are numbered
from zero. An elementary cycle runs along edges through different nodes and
back to the first; it is written from its least node, which is repeated at
the end.

The cycles are enumerated by their least node, and for one least node in the
order in which a depth-first walk along the successor lists closes them. The
walk keeps the nodes that it may still enter: those after the least node that
are not on its path. Each step takes one of them away, so the walk ends.
-/

namespace Descent

/-- **A graph**: the successors of each node. -/
abbrev Graph := List (List Nat)

namespace Graph

/-- The successors of a node, in order. -/
def successors (g : Graph) (v : Nat) : List Nat := g.getD v []

/-- The ways from a node back to `least` through different nodes among
`free`, each with the node itself in front. -/
def returns (g : Graph) (least : Nat) (free : List Nat) (v : Nat) :
    List (List Nat) :=
  (g.successors v).flatMap fun w =>
    if w = least then [[v, least]]
    else if _h : w ∈ free then
      (returns g least (free.erase w) w).map (v :: ·)
    else []
termination_by free.length
decreasing_by
  have := List.length_pos_of_mem _h
  rw [List.length_erase_of_mem _h]
  omega

/-- The nodes after a node. -/
def after (g : Graph) (v : Nat) : List Nat :=
  (List.range g.length).drop (v + 1)

/-- **All elementary cycles.** -/
def elementaryCycles (g : Graph) : List (List Nat) :=
  (List.range g.length).flatMap fun least => returns g least (g.after least) least

theorem mem_after {g : Graph} {v w : Nat} :
    w ∈ g.after v ↔ v < w ∧ w < g.length := by
  simp only [after, List.mem_drop_iff_getElem, List.getElem_range, List.length_range]
  constructor
  · rintro ⟨i, h, rfl⟩
    omega
  · rintro ⟨h, h'⟩
    exact ⟨w - (v + 1), by omega, by omega⟩

end Graph

end Descent
