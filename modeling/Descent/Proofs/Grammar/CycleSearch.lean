import Descent.Grammar.CycleSearch
import Mathlib.Logic.Relation

/-!
# The search in rounds ends, and finds what the recursive search finds

From a node on top of the stack, the rounds go through the edges of the node that
have not been followed. For each they do what `Graph.returns` does: close a cycle,
enter a node and come back from it, or nothing. When the last edge is done the node
is left, and path, stack and marks are what they were before the node was entered
(`Search.rounds_returns`). By induction on the nodes that may still be entered the
rounds come to an end; with them ends the search from the least node, and with the
search from all nodes nothing is left on path and stack and nothing is marked
(`Graph.exists_search`).
-/

namespace Descent.Graph

variable {g : Graph} {least : Nat}

/-! ## The recursive search, edge by edge -/

/-- The ways back from `v` whose first edge leads to `w`. -/
def returnsVia (g : Graph) (least : Nat) (free : List Nat) (v w : Nat) :
    List (List Nat) :=
  if w = least then [[v, least]]
  else if w ∈ free then (returns g least (free.erase w) w).map (v :: ·)
  else []

/-- The ways back from a node are those along its edges, one after the other. -/
theorem returns_eq_flatMap (g : Graph) (least : Nat) (free : List Nat) (v : Nat) :
    returns g least free v =
      (g.successors v).flatMap (returnsVia g least free v) := by
  rw [returns]
  rfl

section Via

variable {free : List Nat} {v w : Nat}

theorem returnsVia_least :
    returnsVia g least free v least = [[v, least]] :=
  if_pos rfl

theorem returnsVia_free (hne : w ≠ least) (hw : w ∈ free) :
    returnsVia g least free v w =
      (returns g least (free.erase w) w).map (v :: ·) := by
  rw [returnsVia, if_neg hne, if_pos hw]

theorem returnsVia_not_free (hne : w ≠ least) (hw : w ∉ free) :
    returnsVia g least free v w = [] := by
  rw [returnsVia, if_neg hne, if_neg hw]

end Via

/-- No node is twice after another. -/
theorem nodup_after (v : Nat) : (g.after v).Nodup :=
  List.nodup_range.sublist (List.drop_sublist _ _)

namespace Search

variable {s s' : Search}

open Relation (ReflTransGen)

/-- **Some rounds** of the search. -/
def Rounds (g : Graph) (least : Nat) : Search → Search → Prop :=
  ReflTransGen fun s s' => s.step g least = some s'

theorem Rounds.head {t : Search} (h : s.step g least = some t)
    (h' : Rounds g least t s') : Rounds g least s s' :=
  ReflTransGen.head h h'

/-- Rounds that end are made by every number of rounds that is large enough. -/
theorem Rounds.exists_run (h : Rounds g least s s') (hend : s'.stack = []) :
    ∃ enough, ∀ n, enough ≤ n → run g least n s = some s' := by
  induction h using ReflTransGen.head_induction_on with
  | refl =>
    refine ⟨1, fun n hn => ?_⟩
    obtain ⟨n, rfl⟩ := Nat.exists_eq_add_of_le hn
    rw [Nat.add_comm, run]
    simp [step, hend]
  | head hstep _ ih =>
    obtain ⟨enough, ih⟩ := ih
    refine ⟨enough + 1, fun n hn => ?_⟩
    obtain ⟨n, rfl⟩ := Nat.exists_eq_add_of_le hn
    rw [Nat.add_right_comm, run, hstep]
    exact ih _ (by omega)

/-! ## What one round does -/

section Step

variable {v w k : Nat} {path : List Nat} {below : List (Nat × Nat)}
  {marks : List Bool} {found : List (List Nat)}

/-- Without an edge left the node is left. -/
theorem step_leave (hk : (g.successors v)[k]? = none) :
    step g least ⟨v :: path, (v, k) :: below, marks, found⟩ =
      some ⟨path, below, marks.set v false, found⟩ := by
  simp [step, hk, leave]

/-- An edge to the least node closes a cycle. -/
theorem step_close (hk : (g.successors v)[k]? = some least) :
    step g least ⟨path, (v, k) :: below, marks, found⟩ =
      some ⟨path, (v, k + 1) :: below, marks,
        found ++ [(least :: path).reverse]⟩ := by
  simp [step, hk]

/-- An edge to a later node that is not on the path enters the node. -/
theorem step_enter (hk : (g.successors v)[k]? = some w) (hlt : least < w)
    (hw : marks[w]? = some false) :
    step g least ⟨path, (v, k) :: below, marks, found⟩ =
      some ⟨w :: path, (w, 0) :: (v, k + 1) :: below, marks.set w true, found⟩ := by
  simp [step, hk, hlt, hw, Nat.ne_of_gt hlt]

/-- Any other edge is passed over. -/
theorem step_skip (hk : (g.successors v)[k]? = some w) (hne : w ≠ least)
    (hw : ¬ (least < w ∧ marks[w]? = some false)) :
    step g least ⟨path, (v, k) :: below, marks, found⟩ =
      some ⟨path, (v, k + 1) :: below, marks, found⟩ := by
  simp only [step, hk, if_neg hne, if_neg hw]

end Step

/-! ## What the rounds from a node do -/

/-- **The marks say which nodes may be entered**: the free ones are the later ones
that are not marked. -/
def Agrees (least : Nat) (marks : List Bool) (free : List Nat) : Prop :=
  ∀ w, w ∈ free ↔ least < w ∧ marks[w]? = some false

/-- A node that is marked and unmarked again leaves the marks as they were. -/
theorem set_set_marks {marks : List Bool} {w : Nat} (hw : marks[w]? = some false) :
    (marks.set w true).set w false = marks := by
  obtain ⟨hlt, hw⟩ := List.getElem?_eq_some_iff.mp hw
  rw [List.set_set, ← hw, List.set_getElem_self]

/-- The node that is entered is the only one that is not free any more. -/
theorem Agrees.enter {marks : List Bool} {free : List Nat} {w : Nat}
    (h : Agrees least marks free) (hnodup : free.Nodup) :
    Agrees least (marks.set w true) (free.erase w) := by
  intro x
  rw [hnodup.mem_erase_iff, h x, List.getElem?_set]
  by_cases hx : w = x
  · subst hx
    simp
  · simp [hx, Ne.symm hx]

/-- **The rounds over some edges of a node** close the cycles that are found by
following the edges, leave the node, and change nothing else; provided that the
rounds from the nodes entered do so. -/
theorem rounds_edges {free : List Nat} {v : Nat} {path : List Nat}
    {below : List (Nat × Nat)} {marks : List Bool}
    (hfree : Agrees least marks free) (hnodup : free.Nodup)
    (hinner : ∀ w ∈ free, ∀ path below marks found,
      Agrees least marks (free.erase w) →
      Rounds g least ⟨w :: path, (w, 0) :: below, marks, found⟩
        ⟨path, below, marks.set w false,
          found ++ (returns g least (free.erase w) w).map (path.reverse ++ ·)⟩)
    {ws : List Nat} {k : Nat} {found : List (List Nat)}
    (hws : (g.successors v).drop k = ws) :
    Rounds g least ⟨v :: path, (v, k) :: below, marks, found⟩
      ⟨path, below, marks.set v false,
        found ++ (ws.flatMap (returnsVia g least free v)).map
          (path.reverse ++ ·)⟩ := by
  induction ws generalizing k found with
  | nil =>
    have hk : (g.successors v)[k]? = none :=
      List.getElem?_eq_none (List.drop_eq_nil_iff.mp hws)
    refine .head (step_leave hk) ?_
    rw [List.flatMap_nil, List.map_nil, List.append_nil]
    exact .refl
  | cons w ws ih =>
    have hk : (g.successors v)[k]? = some w := by
      rw [← List.head?_drop, hws, List.head?_cons]
    have hrest : (g.successors v).drop (k + 1) = ws := by
      rw [← List.tail_drop, hws, List.tail_cons]
    rw [List.flatMap_cons, List.map_append, ← List.append_assoc]
    by_cases hleast : w = least
    · subst hleast
      refine .head (step_close hk) ?_
      rw [returnsVia_least]
      simpa using @ih (k + 1) (found ++ [(w :: v :: path).reverse]) hrest
    · by_cases hmem : w ∈ free
      · obtain ⟨hlt, hw⟩ := (hfree w).mp hmem
        have hround := hinner w hmem (v :: path) ((v, k + 1) :: below) _ found
          (hfree.enter hnodup)
        -- the mark is taken back when the node is left
        rw [set_set_marks hw] at hround
        have hpaths (c : List Nat) :
            (v :: path).reverse ++ c = path.reverse ++ v :: c := by simp
        simp only [hpaths] at hround
        rw [returnsVia_free hleast hmem, List.map_map]
        exact .head (step_enter hk hlt hw) (hround.trans (ih hrest))
      · refine .head (step_skip hk hleast fun h => hmem ((hfree w).mpr h)) ?_
        rw [returnsVia_not_free hleast hmem]
        simpa using ih hrest

/-- **The rounds from a node** close the cycles that are found by following its
edges, leave the node, and change nothing else. -/
theorem rounds_returns {free : List Nat} {v : Nat} {path : List Nat}
    {below : List (Nat × Nat)} {marks : List Bool} {found : List (List Nat)}
    (hfree : Agrees least marks free) (hnodup : free.Nodup) :
    Rounds g least ⟨v :: path, (v, 0) :: below, marks, found⟩
      ⟨path, below, marks.set v false,
        found ++ (returns g least free v).map (path.reverse ++ ·)⟩ := by
  induction free, v using returns.induct generalizing path below marks found with
  | case1 free v ih =>
    rw [returns_eq_flatMap]
    exact rounds_edges hfree hnodup
      (fun w hw _ _ _ _ hagrees => ih w hw hagrees (hnodup.erase w)) rfl

/-- **The search from a least node ends**, leaves nothing behind, and finds the
cycles that have it as their least node. -/
theorem exists_run_enter (found : List (List Nat)) (hleast : least < g.length) :
    ∃ enough, ∀ n, enough ≤ n → run g least n ((idle g found).enter least) =
      some (idle g (found ++ returns g least (g.after least) least)) := by
  have hagrees : Agrees least ((List.replicate g.length false).set least true)
      (g.after least) := by
    intro w
    rw [mem_after, List.getElem?_set]
    by_cases hw : least = w
    · subst hw
      simp
    · simp [hw, List.getElem?_replicate]
  have hrounds : Rounds g least ⟨[least], [(least, 0)], _, found⟩ ⟨[], [], _, _⟩ :=
    rounds_returns hagrees (nodup_after least)
  rw [set_set_marks (by simp [hleast])] at hrounds
  simp only [List.reverse_nil, List.nil_append, List.map_id_fun'] at hrounds
  exact hrounds.exists_run rfl

/-- The search from some nodes in turn ends, and leaves nothing behind. -/
theorem exists_foldlM_run (starts : List Nat) (found : List (List Nat))
    (h : ∀ v ∈ starts, v < g.length) :
    ∃ enough, ∀ n, enough ≤ n →
      starts.foldlM (fun s least => run g least n (s.enter least))
          (idle g found) =
        some (idle g (found ++ starts.flatMap fun v =>
          returns g v (g.after v) v)) := by
  induction starts generalizing found with
  | nil => exact ⟨0, fun _ _ => by simp⟩
  | cons v starts ih =>
    obtain ⟨hv, h⟩ := List.forall_mem_cons.mp h
    obtain ⟨enough, hrun⟩ := exists_run_enter found hv
    obtain ⟨enough', hfold⟩ := ih (found ++ returns g v (g.after v) v) h
    refine ⟨max enough enough', fun n hn => ?_⟩
    rw [List.foldlM_cons, hrun n (Nat.le_trans (Nat.le_max_left _ _) hn),
      List.flatMap_cons, ← List.append_assoc]
    exact hfold n (Nat.le_trans (Nat.le_max_right _ _) hn)

end Search

/-- **The search in rounds ends**: every number of rounds that is large enough
suffices for it. It finds the cycles that the recursive search finds, in the same
order, and leaves nothing on the path and the stack and no node marked. -/
theorem exists_search (g : Graph) :
    ∃ enough, ∀ n, enough ≤ n →
      g.search n = some (Search.idle g g.elementaryCycles) :=
  Search.exists_foldlM_run (List.range g.length) []
    fun _ hv => List.mem_range.mp hv

end Descent.Graph
