import Descent.Grammar.Cycle
import Mathlib.Data.Finset.Card

/-!
# A graph without elementary cycles can be ranked

`Graph.elementaryCycles` looks for cycles that repeat no node. A graph in which
it finds none has no closed walk at all, whatever nodes a walk repeats: of a
closed walk, the part between two visits of its least node is a walk through
later nodes only, and cutting off what lies between two visits of a node leaves
a walk that the search follows.

So the nodes can be ranked with every edge going down (`Graph.exists_rank`): the
rank of a node is the number of nodes that walks from it reach. And what is found
is no less than what is said: every cycle found runs along edges back to where it
starts (`Graph.isChain_of_mem_elementaryCycles`).
-/

namespace Descent.Graph

variable {g : Graph}

/-- **A walk** along edges, at least one of them, all of whose inner nodes lie
in `S`. -/
inductive Walk (g : Graph) (S : Nat → Prop) : Nat → Nat → Prop
  /-- An edge is a walk without inner nodes. -/
  | edge {v w : Nat} : w ∈ g.successors v → Walk g S v w
  /-- An edge to an inner node, and a walk from there. -/
  | step {v w x : Nat} : w ∈ g.successors v → S w → Walk g S w x → Walk g S v x

namespace Walk

variable {S S' : Nat → Prop} {u v w : Nat}

/-- A walk is one through every larger set of inner nodes. -/
theorem mono (hS : ∀ y, S y → S' y) (h : Walk g S v w) : Walk g S' v w := by
  induction h with
  | edge hw => exact edge hw
  | step hw hy _ ih => exact step hw (hS _ hy) ih

/-- Two walks joined at a node that may be an inner one. -/
theorem append (h : Walk g S u v) (hv : S v) (h' : Walk g S v w) :
    Walk g S u w := by
  induction h with
  | edge hw => exact step hw hv h'
  | step hw hy _ ih => exact step hw hy (ih hv h')

/-- What has an edge is a node. -/
theorem lt_length (h : Walk g S v w) : v < g.length := by
  have key : ∀ {w : Nat}, w ∈ g.successors v → v < g.length := by
    intro w hw
    by_contra hlt
    rw [successors, List.getD_eq_getElem?_getD,
      List.getElem?_eq_none (Nat.le_of_not_lt hlt)] at hw
    exact List.not_mem_nil hw
  cases h with
  | edge hw => exact key hw
  | step hw _ _ => exact key hw

/-- The inner nodes of a walk are nodes. -/
theorem inner_lt (h : Walk g S v w) :
    Walk g (fun y => S y ∧ y < g.length) v w := by
  induction h with
  | edge hw => exact edge hw
  | step hw hy h ih => exact step hw ⟨hy, h.lt_length⟩ ih

/-- **A walk misses a node or is cut by it**: either the node is not an inner
one, or walks that miss it lead to it and on from it. -/
theorem avoid (x : Nat) (h : Walk g S v w) :
    Walk g (fun y => S y ∧ y ≠ x) v w ∨
      Walk g (fun y => S y ∧ y ≠ x) v x ∧ Walk g (fun y => S y ∧ y ≠ x) x w := by
  induction h with
  | edge hw => exact .inl (edge hw)
  | @step v y w hw hy _ ih =>
    by_cases hyx : y = x
    · subst hyx
      rcases ih with h | ⟨_, h⟩
      · exact .inr ⟨edge hw, h⟩
      · exact .inr ⟨edge hw, h⟩
    · rcases ih with h | ⟨h, h'⟩
      · exact .inl (step hw ⟨hy, hyx⟩ h)
      · exact .inr ⟨step hw ⟨hy, hyx⟩ h, h'⟩

end Walk

/-- **The search for a way back does not miss one**: if a walk through free
nodes leads to the least node, some way there through different free nodes is
found. -/
theorem returns_ne_nil {least : Nat} (free : List Nat) (v : Nat)
    (h : Walk g (· ∈ free) v least) : returns g least free v ≠ [] := by
  fun_induction returns g least free v with
  | case1 free v ih =>
    intro hnil
    rw [List.flatMap_eq_nil_iff] at hnil
    cases h with
    | edge hw => simpa using hnil least hw
    | @step v w _ hw hfree h =>
      have hw' := hnil w hw
      by_cases hl : w = least
      · simp [hl] at hw'
      · rw [if_neg hl, dif_pos hfree, List.map_eq_nil_iff] at hw'
        -- what comes after the last visit of `w` does not need `w`
        have hcut : Walk g (fun y => y ∈ free ∧ y ≠ w) w least := by
          rcases h.avoid w with h | ⟨_, h⟩ <;> exact h
        have herase : Walk g (· ∈ free.erase w) w least :=
          hcut.mono fun y hy => (List.mem_erase_of_ne hy.2).mpr hy.1
        exact ih w hfree herase hw'

/-- Without elementary cycles, no walk leads from a node back to it through
later nodes. -/
theorem not_walk_after (h : g.elementaryCycles = []) (v : Nat) :
    ¬ Walk g (v < ·) v v := by
  intro hw
  rw [elementaryCycles, List.flatMap_eq_nil_iff] at h
  refine returns_ne_nil (g.after v) v ?_ (h v (List.mem_range.mpr hw.lt_length))
  exact hw.inner_lt.mono fun y hy => mem_after.mpr hy

/-- **Without elementary cycles there are no closed walks.** -/
theorem not_walk_self (h : g.elementaryCycles = []) (v : Nat) :
    ¬ Walk g (fun _ => True) v v := by
  -- by induction on the number of nodes from `m` on: a closed walk among those
  -- either misses `m`, or is a walk from `m` back to `m`
  have key : ∀ d m v : Nat, g.length ≤ m + d → m ≤ v → ¬ Walk g (m ≤ ·) v v := by
    intro d
    induction d with
    | zero =>
      intro m v hlen hmv hw
      have := hw.lt_length
      omega
    | succ d ih =>
      intro m v hlen hmv hw
      have hlater : ∀ y, m ≤ y ∧ y ≠ m → m < y := fun y hy =>
        Nat.lt_of_le_of_ne hy.1 (Ne.symm hy.2)
      rcases hw.avoid m with hmiss | ⟨hto, hfrom⟩
      · by_cases hvm : v = m
        · subst hvm
          exact not_walk_after h v (hmiss.mono hlater)
        · exact ih (m + 1) v (by omega) (by omega) (hmiss.mono hlater)
      · by_cases hvm : v = m
        · subst hvm
          exact not_walk_after h v (hto.mono hlater)
        · exact not_walk_after h m
            ((hfrom.append ⟨hmv, hvm⟩ hto).mono hlater)
  intro hw
  exact key g.length 0 v (by omega) (Nat.zero_le v)
    (hw.mono fun y _ => Nat.zero_le y)

/-- **Without elementary cycles the nodes can be ranked** below the number of
nodes, with every edge going down. -/
theorem exists_rank (h : g.elementaryCycles = [])
    (hin : ∀ v, ∀ w ∈ g.successors v, w < g.length) :
    ∃ rank : Nat → Nat, (∀ v < g.length, rank v < g.length) ∧
      ∀ v, ∀ w ∈ g.successors v, rank w < rank v := by
  classical
  let reached (v : Nat) : Finset Nat :=
    (Finset.range g.length).filter (Walk g (fun _ => True) v)
  refine ⟨fun v => (reached v).card, fun v hv => ?_, fun v w hw => ?_⟩
  · have hsub : reached v ⊂ Finset.range g.length :=
      (Finset.ssubset_iff_of_subset (Finset.filter_subset _ _)).mpr
        ⟨v, Finset.mem_range.mpr hv,
          fun hv' => not_walk_self h v (Finset.mem_filter.mp hv').2⟩
    simpa using Finset.card_lt_card hsub
  · have hle : reached w ⊆ reached v := by
      intro y hy
      obtain ⟨hy, hwy⟩ := Finset.mem_filter.mp hy
      exact Finset.mem_filter.mpr ⟨hy, .step hw trivial hwy⟩
    have hmem : w ∈ reached v :=
      Finset.mem_filter.mpr ⟨Finset.mem_range.mpr (hin v w hw), .edge hw⟩
    exact Finset.card_lt_card ((Finset.ssubset_iff_of_subset hle).mpr
      ⟨w, hmem, fun hw' => not_walk_self h w (Finset.mem_filter.mp hw').2⟩)

/-! ## What is found are cycles -/

/-- **A way back is a walk**: it starts where the search starts, ends at the least
node and runs along edges. -/
theorem isChain_of_mem_returns {least : Nat} (free : List Nat) (v : Nat)
    {path : List Nat} (h : path ∈ returns g least free v) :
    (∃ inner, path = v :: (inner ++ [least])) ∧
      path.IsChain fun a b => b ∈ g.successors a := by
  fun_induction returns g least free v generalizing path with
  | case1 free v ih =>
    obtain ⟨w, hw, h⟩ := List.mem_flatMap.mp h
    split at h
    · next hleast =>
      rw [hleast] at hw
      rw [List.mem_singleton.mp h]
      exact ⟨⟨[], rfl⟩, .cons_cons hw (.singleton least)⟩
    · split at h
      · next hfree =>
        obtain ⟨rest, hrest, rfl⟩ := List.mem_map.mp h
        obtain ⟨⟨inner, rfl⟩, hchain⟩ := ih w hfree hrest
        exact ⟨⟨w :: inner, rfl⟩, .cons_cons hw hchain⟩
      · exact absurd h List.not_mem_nil

/-- **An elementary cycle is a closed walk.** -/
theorem isChain_of_mem_elementaryCycles {cycle : List Nat}
    (h : cycle ∈ g.elementaryCycles) :
    (∃ v inner, cycle = v :: (inner ++ [v])) ∧
      cycle.IsChain fun a b => b ∈ g.successors a := by
  obtain ⟨v, _, hv⟩ := List.mem_flatMap.mp h
  obtain ⟨hinner, hchain⟩ := isChain_of_mem_returns _ v hv
  exact ⟨⟨v, hinner⟩, hchain⟩

end Descent.Graph
