import Descent.Grammar.LeftRecursion
import Descent.Proofs.Grammar.Cycle

/-!
# Names of a grammar without left recursion can be ranked

In a grammar without left recursion, names can be ranked so that whatever can
come first in a rule of a non-terminal is of lower rank than the non-terminal
(`Grammar.nonempty_ranking`).
Undeclared names have rank zero and declared ones a positive rank, at most the
number of names.

A matcher that enters non-terminals without taking tokens goes down in rank all
the way.
-/

namespace Descent.Grammar

variable {K α : Type} {g : Grammar K α}

/-- Without left recursion the graph of what comes first has no elementary
cycle. -/
theorem elementaryCycles_eq_nil (h : g.isLeftRecursive = false) :
    g.leftmostGraph.elementaryCycles = [] := by
  rw [isLeftRecursive, leftCycles] at h
  simpa using h

theorem length_leftmostGraph (g : Grammar K α) : g.leftmostGraph.length = g.size :=
  List.length_map _

/-- The non-terminal found for a name stands at the place found for it. -/
theorem exists_indexOf? {name : String} {n : NonTerminal K α}
    (h : g.get? name = some n) :
    ∃ i, g.indexOf? name = some i ∧ g.nonTerminals[i]? = some n := by
  obtain ⟨hp, i, hi, hn, hmin⟩ := List.find?_eq_some_iff_getElem.mp h
  refine ⟨i, List.findIdx?_eq_some_iff_getElem.mpr ⟨hi, ?_, fun j hj => ?_⟩, ?_⟩
  · rw [hn]
    exact hp
  · simpa using hmin j hj
  · rw [List.getElem?_eq_getElem hi, hn]

theorem indexOf?_lt {name : String} {i : Nat} (h : g.indexOf? name = some i) :
    i < g.size :=
  (List.findIdx?_eq_some_iff_getElem.mp h).1

/-- The edges of a node of the graph are those of the non-terminal there. -/
theorem successors_leftmostGraph {i : Nat} {n : NonTerminal K α}
    (h : g.nonTerminals[i]? = some n) :
    g.leftmostGraph.successors i = g.leftmostIndices g.nullable.contains n := by
  rw [Graph.successors, leftmostGraph, List.getD_eq_getElem?_getD,
    List.getElem?_map, h]
  rfl

theorem mem_leftmostIndices {nullable : String → Bool} {n : NonTerminal K α}
    {i : Nat} :
    i ∈ g.leftmostIndices nullable n ↔
      ∃ r ∈ n.rules, ∃ x ∈ r.leftmost nullable, g.indexOf? x = some i := by
  simp only [leftmostIndices, List.mem_eraseDups, List.mem_flatMap,
    List.mem_filterMap]

/-- Edges lead to nodes. -/
theorem successors_lt (i : Nat) : ∀ j ∈ g.leftmostGraph.successors i,
    j < g.leftmostGraph.length := by
  intro j hj
  rw [length_leftmostGraph]
  cases hi : g.nonTerminals[i]? with
  | some n =>
    rw [successors_leftmostGraph hi, mem_leftmostIndices] at hj
    obtain ⟨_, _, _, _, hx⟩ := hj
    exact indexOf?_lt hx
  | none =>
    rw [Graph.successors, leftmostGraph, List.getD_eq_getElem?_getD,
      List.getElem?_map, hi] at hj
    exact absurd hj List.not_mem_nil

/-- **A ranking of names** in which whatever can come first in a rule of a
non-terminal is of lower rank than the non-terminal. -/
structure Ranking (g : Grammar K α) where
  /-- The rank of a name. -/
  rank : String → Nat
  /-- No rank is larger than the number of non-terminals. -/
  rank_le : ∀ x, rank x ≤ g.size
  /-- A declared name has a positive rank. -/
  rank_pos : ∀ {x n}, g.get? x = some n → 0 < rank x
  /-- What can come first is of lower rank. -/
  rank_lt : ∀ {x n}, g.get? x = some n → ∀ r ∈ n.rules,
    ∀ y ∈ r.leftmost g.nullable.contains, rank y < rank x

/-- **Without left recursion there is a ranking.** -/
theorem nonempty_ranking (h : g.isLeftRecursive = false) : Nonempty g.Ranking := by
  obtain ⟨rank, hlt, hdown⟩ :=
    Graph.exists_rank (elementaryCycles_eq_nil h) successors_lt
  rw [length_leftmostGraph] at hlt
  refine ⟨⟨fun x => ((g.indexOf? x).map (rank · + 1)).getD 0,
    fun x => ?_, fun {x n} hx => ?_, fun {x n} hx r hr y hy => ?_⟩⟩
  · cases hi : g.indexOf? x with
    | none => simp
    | some i => simpa [Nat.succ_le_iff] using hlt i (indexOf?_lt hi)
  · obtain ⟨i, hi, _⟩ := exists_indexOf? hx
    simp [hi]
  · obtain ⟨i, hi, hn⟩ := exists_indexOf? hx
    cases hj : g.indexOf? y with
    | none => simp [hi]
    | some j =>
      have hedge : j ∈ g.leftmostGraph.successors i := by
        rw [successors_leftmostGraph hn, mem_leftmostIndices]
        exact ⟨r, hr, y, hy, hj⟩
      simpa [hi] using hdown i j hedge

end Descent.Grammar
