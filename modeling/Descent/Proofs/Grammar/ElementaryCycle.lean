import Descent.Proofs.Grammar.Cycle
import Descent.Proofs.Grammar.CycleSearch
import Mathlib.Data.List.Cycle

/-!
# The search finds every elementary cycle, once and in order

An elementary cycle is a cyclic sequence of different nodes each of which is
followed by a successor of it (`Graph.IsElementary`); it has no first node. What
the search gives are paths, and a path writes a cycle from its least node back to
it (`Graph.Writes`): every cycle is written by exactly one path.

A path is found if and only if it writes an elementary cycle
(`Graph.mem_elementaryCycles_iff`). The paths are found in the order of their first
nodes, and for one first node depth first: of two paths that part at a node, the one
that goes off along the edge that is listed earlier is found earlier
(`Graph.pairwise_precedes`). If no edge is listed twice, that leaves no room for a
path to be found twice.
-/

namespace Descent.Graph

variable {g : Graph} {c : Cycle Nat} {path path' : List Nat}

/-! ## Elementary cycles and how they are written -/

/-- **An elementary cycle**: different nodes, each followed by one of its
successors, the last one by the first. -/
def IsElementary (g : Graph) (c : Cycle Nat) : Prop :=
  c ≠ Cycle.nil ∧ c.Nodup ∧ c.Chain fun v w => w ∈ g.successors v

/-- **A path writes a cycle**: it runs from the least node of the cycle through the
other nodes back to the least. -/
def Writes (path : List Nat) (c : Cycle Nat) : Prop :=
  ∃ least inner, c = ↑(least :: inner) ∧ path = least :: (inner ++ [least]) ∧
    ∀ w ∈ inner, least < w

/-- Every cycle of different nodes is written by some path. -/
theorem exists_writes (hne : c ≠ Cycle.nil) (hnodup : c.Nodup) :
    ∃ path, Writes path c := by
  induction c using Quotient.inductionOn with
  | h nodes =>
    have hnodes : nodes ≠ [] := fun h => hne (congrArg _ h)
    obtain ⟨least, hmem, hle⟩ : ∃ least ∈ nodes, ∀ w ∈ nodes, least ≤ w :=
      ⟨nodes.min hnodes, List.min_mem hnodes,
        fun w hw => (List.le_min_iff hnodes).mp le_rfl w hw⟩
    obtain ⟨before, after, rfl⟩ := List.append_of_mem hmem
    have hrotated : (before ++ least :: after) ~r (least :: (after ++ before)) :=
      List.isRotated_append
    refine ⟨_, least, after ++ before, Cycle.coe_eq_coe.mpr hrotated, rfl,
      fun w hw => ?_⟩
    have hdistinct := hrotated.nodup_iff.mp (Cycle.nodup_coe_iff.mp hnodup)
    have hne : least ≠ w := fun h => (List.nodup_cons.mp hdistinct).1 (h ▸ hw)
    refine lt_of_le_of_ne (hle w (hrotated.mem_iff.mpr ?_)) hne
    exact List.mem_cons_of_mem least hw

/-- A list of different things is rotated onto one that begins with the same thing
only by not being rotated. -/
theorem eq_of_isRotated_cons {v : Nat} {l l' : List Nat}
    (h : (v :: l) ~r (v :: l')) (hnodup : (v :: l).Nodup) : l = l' := by
  obtain ⟨n, hn, hrotate⟩ := List.isRotated_iff_mod.mp h
  cases n with
  | zero =>
    rw [List.rotate_zero] at hrotate
    exact (List.cons.inj hrotate).2
  | succ n =>
    rcases Nat.eq_or_lt_of_le hn with hn | hn
    · rw [hn, List.rotate_length] at hrotate
      exact (List.cons.inj hrotate).2
    · -- what the rotation begins with would be there twice
      have hhead := List.head?_rotate hn
      rw [hrotate, List.head?_cons, List.getElem?_cons_succ] at hhead
      exact absurd (List.mem_of_getElem? hhead.symm) (List.nodup_cons.mp hnodup).1

/-- **One path writes a cycle.** -/
theorem Writes.unique (hnodup : c.Nodup) (h : Writes path c)
    (h' : Writes path' c) : path = path' := by
  obtain ⟨least, inner, rfl, rfl, hlt⟩ := h
  obtain ⟨least', inner', hc, rfl, hlt'⟩ := h'
  have hrotated := Cycle.coe_eq_coe.mp hc
  have hleast : least = least' := by
    have hmem := hrotated.mem_iff.mp List.mem_cons_self
    have hmem' := hrotated.mem_iff.mpr List.mem_cons_self
    rcases List.mem_cons.mp hmem with h | h
    · exact h
    · rcases List.mem_cons.mp hmem' with h' | h'
      · exact h'.symm
      · exact absurd (hlt _ h') (Nat.lt_asymm (hlt' _ h))
  subst hleast
  rw [eq_of_isRotated_cons hrotated (Cycle.nodup_coe_iff.mp hnodup)]

/-! ## What is found -/

/-- **A way back along an edge** is the edge alone, if it leads to the least node;
or it enters a free node and goes on from there. -/
theorem mem_returnsVia_iff {least : Nat} {free : List Nat} {v w : Nat} :
    path ∈ returnsVia g least free v w ↔
      w = least ∧ path = [v, least] ∨
      w ≠ least ∧ w ∈ free ∧
        ∃ rest ∈ returns g least (free.erase w) w, v :: rest = path := by
  by_cases hleast : w = least
  · subst hleast
    simp [returnsVia_least]
  · by_cases hfree : w ∈ free
    · simp [returnsVia_free hleast hfree, hleast, hfree]
    · simp [returnsVia_not_free hleast hfree, hleast, hfree]

/-- A way back along an edge begins with that edge. -/
theorem exists_of_mem_returnsVia {least : Nat} {free : List Nat} {v w : Nat}
    (h : path ∈ returnsVia g least free v w) : ∃ p, path = v :: w :: p := by
  obtain ⟨rfl, rfl⟩ | ⟨_, _, rest, hrest, rfl⟩ := mem_returnsVia_iff.mp h
  · exact ⟨[], rfl⟩
  · obtain ⟨⟨inner, rfl⟩, _⟩ := isChain_of_mem_returns _ w hrest
    exact ⟨_, rfl⟩

/-- **The ways back** that are found are the paths along edges through different
free nodes. -/
theorem mem_returns_iff {least : Nat} {free : List Nat} {v : Nat}
    (hnodup : free.Nodup) (hleast : least ∉ free) :
    path ∈ returns g least free v ↔
      ∃ inner, path = v :: (inner ++ [least]) ∧ inner.Nodup ∧ inner ⊆ free ∧
        path.IsChain fun a b => b ∈ g.successors a := by
  induction free, v using returns.induct generalizing path with
  | case1 free v ih =>
    have ih' {w : Nat} {path : List Nat} (hw : w ∈ free) :
        path ∈ returns g least (free.erase w) w ↔
          ∃ inner, path = w :: (inner ++ [least]) ∧ inner.Nodup ∧
            inner ⊆ free.erase w ∧
            path.IsChain fun a b => b ∈ g.successors a :=
      ih w hw (hnodup.erase w) fun h => hleast (List.mem_of_mem_erase h)
    rw [returns_eq_flatMap, List.mem_flatMap]
    constructor
    · rintro ⟨w, hw, h⟩
      obtain ⟨rfl, rfl⟩ | ⟨_, hfree, rest, hrest, rfl⟩ := mem_returnsVia_iff.mp h
      · exact ⟨[], rfl, List.nodup_nil, List.nil_subset _,
          .cons_cons hw (.singleton w)⟩
      · obtain ⟨inner, rfl, hinner, hsub, hchain⟩ := (ih' hfree).mp hrest
        refine ⟨w :: inner, rfl, List.nodup_cons.mpr ⟨fun h => ?_, hinner⟩,
          List.cons_subset.mpr ⟨hfree, fun _ hx => List.erase_subset (hsub hx)⟩,
          .cons_cons hw hchain⟩
        exact (hnodup.mem_erase_iff.mp (hsub h)).1 rfl
    · rintro ⟨inner, rfl, hinner, hsub, hchain⟩
      cases inner with
      | nil =>
        exact ⟨least, (List.isChain_cons_cons.mp hchain).1,
          mem_returnsVia_iff.mpr (.inl ⟨rfl, rfl⟩)⟩
      | cons w inner =>
        obtain ⟨hw, hchain⟩ := List.isChain_cons_cons.mp hchain
        obtain ⟨hfree, hsub⟩ := List.cons_subset.mp hsub
        obtain ⟨hnot, hinner⟩ := List.nodup_cons.mp hinner
        have hrest : w :: (inner ++ [least]) ∈ returns g least (free.erase w) w := by
          refine (ih' hfree).mpr ⟨inner, rfl, hinner, fun x hx => ?_, hchain⟩
          exact hnodup.mem_erase_iff.mpr ⟨fun h => hnot (h ▸ hx), hsub hx⟩
        exact ⟨w, hw, mem_returnsVia_iff.mpr
          (.inr ⟨fun h => hleast (h ▸ hfree), hfree, _, hrest, rfl⟩)⟩

/-- What has a successor is a node. -/
theorem lt_length_of_mem_successors {v w : Nat} (h : w ∈ g.successors v) :
    v < g.length :=
  (Walk.edge h : Walk g (fun _ => True) v w).lt_length

/-- In a path along edges all nodes but the last have a successor. -/
theorem lt_length_of_isChain {nodes : List Nat} {last : Nat}
    (h : (nodes ++ [last]).IsChain fun a b => b ∈ g.successors a) :
    ∀ v ∈ nodes, v < g.length := by
  induction nodes with
  | nil => exact fun _ hv => absurd hv List.not_mem_nil
  | cons v nodes ih =>
    refine List.forall_mem_cons.mpr ⟨?_, ih h.tail⟩
    cases nodes with
    | nil => exact lt_length_of_mem_successors (List.isChain_cons_cons.mp h).1
    | cons w nodes =>
      exact lt_length_of_mem_successors (List.isChain_cons_cons.mp h).1

/-- **A path is found if and only if it writes an elementary cycle.** -/
theorem mem_elementaryCycles_iff :
    path ∈ g.elementaryCycles ↔ ∃ c, g.IsElementary c ∧ Writes path c := by
  rw [elementaryCycles, List.mem_flatMap]
  have hafter (least : Nat) : least ∉ g.after least := fun h =>
    Nat.lt_irrefl least (mem_after.mp h).1
  constructor
  · rintro ⟨least, _, h⟩
    obtain ⟨inner, rfl, hinner, hsub, hchain⟩ :=
      (mem_returns_iff (nodup_after least) (hafter least)).mp h
    have hlt : ∀ w ∈ inner, least < w := fun w hw => (mem_after.mp (hsub hw)).1
    refine ⟨↑(least :: inner), ⟨fun h => ?_, ?_, ?_⟩, least, inner, rfl, rfl, hlt⟩
    · exact List.cons_ne_nil _ _ ((Cycle.coe_eq_nil _).mp h)
    · refine Cycle.nodup_coe_iff.mpr (List.nodup_cons.mpr ⟨fun h => ?_, hinner⟩)
      exact hafter least (hsub h)
    · exact (Cycle.chain_coe_cons _ least inner).mpr hchain
  · rintro ⟨_, ⟨_, hnodup, hchain⟩, least, inner, rfl, rfl, hlt⟩
    have hchain := (Cycle.chain_coe_cons _ least inner).mp hchain
    have hnodes : ∀ w ∈ least :: inner, w < g.length := lt_length_of_isChain hchain
    have hinner := (List.nodup_cons.mp (Cycle.nodup_coe_iff.mp hnodup)).2
    refine ⟨least, List.mem_range.mpr (hnodes least List.mem_cons_self),
      (mem_returns_iff (nodup_after least) (hafter least)).mpr
        ⟨inner, rfl, hinner, fun w hw => ?_, hchain⟩⟩
    exact mem_after.mpr ⟨hlt w hw, hnodes w (List.mem_cons_of_mem _ hw)⟩

/-! ## In which order -/

/-- **A path goes off first**: up to some node two paths are one, and there the
first of them takes an edge that is listed before the edge the other takes. -/
inductive GoesFirst (g : Graph) : List Nat → List Nat → Prop
  /-- The paths part at the first node. -/
  | here {v w x : Nat} {p q : List Nat} :
      [w, x].Sublist (g.successors v) → GoesFirst g (v :: w :: p) (v :: x :: q)
  /-- The paths part at a later node. -/
  | later {v : Nat} {p q : List Nat} :
      GoesFirst g p q → GoesFirst g (v :: p) (v :: q)

/-- **The order of a depth-first search** from every node in turn: a path comes
before another if its first node is less, or if it goes off first. -/
inductive Precedes (g : Graph) : List Nat → List Nat → Prop
  /-- The first node is less. -/
  | start {v w : Nat} {p q : List Nat} : v < w → Precedes g (v :: p) (w :: q)
  /-- The first node is the same. -/
  | branch {p q : List Nat} : GoesFirst g p q → Precedes g p q

/-- A path does not come before itself if no edge is listed twice. -/
theorem not_precedes_self (h : ∀ ws ∈ g, ws.Nodup) (path : List Nat) :
    ¬ g.Precedes path path := by
  have hsuccessors (v : Nat) : (g.successors v).Nodup := by
    rw [successors, List.getD_eq_getElem?_getD]
    cases hv : g[v]? with
    | none => exact List.nodup_nil
    | some ws => exact h ws (List.mem_of_getElem? hv)
  have hfirst (path : List Nat) : ¬ g.GoesFirst path path := by
    induction path with
    | nil => exact fun h => by cases h
    | cons v p ih =>
      intro h
      cases h with
      | here hsub => simpa using (hsuccessors v).sublist hsub
      | later h => exact ih h
  intro h
  cases h with
  | start hlt => exact Nat.lt_irrefl _ hlt
  | branch h => exact hfirst path h

/-- The ways back from a node are found depth first. -/
theorem pairwise_returns (g : Graph) (least : Nat) (free : List Nat) (v : Nat) :
    (returns g least free v).Pairwise g.GoesFirst := by
  induction free, v using returns.induct with
  | case1 free v ih =>
    rw [returns_eq_flatMap, List.pairwise_flatMap]
    constructor
    · intro w _
      by_cases hleast : w = least
      · subst hleast
        rw [returnsVia_least]
        exact List.pairwise_singleton _ _
      · by_cases hfree : w ∈ free
        · rw [returnsVia_free hleast hfree, List.pairwise_map]
          exact (ih w hfree).imp .later
        · rw [returnsVia_not_free hleast hfree]
          exact .nil
    · refine List.pairwise_iff_forall_sublist.mpr
        fun {w x} hlisted p hp q hq => ?_
      obtain ⟨p, rfl⟩ := exists_of_mem_returnsVia hp
      obtain ⟨q, rfl⟩ := exists_of_mem_returnsVia hq
      exact .here hlisted

/-- **The cycles are found in the order of a depth-first search.** -/
theorem pairwise_precedes (g : Graph) :
    g.elementaryCycles.Pairwise g.Precedes := by
  rw [elementaryCycles, List.pairwise_flatMap]
  refine ⟨fun least _ => (pairwise_returns g least _ least).imp .branch,
    List.pairwise_lt_range.imp fun {v w} hlt p hp q hq => ?_⟩
  obtain ⟨⟨inner, rfl⟩, _⟩ := isChain_of_mem_returns _ v hp
  obtain ⟨⟨inner', rfl⟩, _⟩ := isChain_of_mem_returns _ w hq
  exact .start hlt

/-- **The search for elementary cycles is exact.** Let no successor be listed
twice. Then the search in rounds comes to an end, and it leaves nothing on its path
and its stack and no node marked. It finds the paths that write elementary cycles
and no others, one for every elementary cycle and none twice, in the order of a
depth-first search from every node in turn. -/
theorem search_exact (g : Graph) (h : ∀ ws ∈ g, ws.Nodup) :
    (∃ enough, ∀ n, enough ≤ n → g.search n =
      some ⟨[], [], List.replicate g.length false, g.elementaryCycles⟩) ∧
    (∀ path, path ∈ g.elementaryCycles ↔
      ∃ c, g.IsElementary c ∧ Writes path c) ∧
    (∀ c, g.IsElementary c →
      ∃! path, path ∈ g.elementaryCycles ∧ Writes path c) ∧
    g.elementaryCycles.Nodup ∧ g.elementaryCycles.Pairwise g.Precedes := by
  refine ⟨exists_search g, fun _ => mem_elementaryCycles_iff, fun c hc => ?_,
    g.pairwise_precedes.imp fun {p q} hpq heq => ?_, g.pairwise_precedes⟩
  · obtain ⟨path, hpath⟩ := exists_writes hc.1 hc.2.1
    exact ⟨path, ⟨mem_elementaryCycles_iff.mpr ⟨c, hc, hpath⟩, hpath⟩,
      fun path' h' => h'.2.unique hc.2.1 hpath⟩
  · subst heq
    exact not_precedes_self h p hpq

/-- Three nodes, the first of which has an edge to itself, and each of which has
edges to the other two. -/
def triangle : Graph := [[0, 1, 2], [0, 2], [0, 1]]

/-- The cycles of the triangle are found in order, and the search leaves nothing
behind. -/
theorem triangle_search :
    (∀ ws ∈ triangle, ws.Nodup) ∧
      ∃ enough, ∀ n, enough ≤ n → triangle.search n =
        some ⟨[], [], [false, false, false],
          [[0, 0], [0, 1, 0], [0, 1, 2, 0], [0, 2, 0], [0, 2, 1, 0],
            [1, 2, 1]]⟩ := by
  have hnodup : ∀ ws ∈ triangle, ws.Nodup := by decide
  have hcycles : triangle.elementaryCycles =
      [[0, 0], [0, 1, 0], [0, 1, 2, 0], [0, 2, 0], [0, 2, 1, 0], [1, 2, 1]] := by
    decide +kernel
  obtain ⟨hsearch, _⟩ := search_exact triangle hnodup
  rw [hcycles] at hsearch
  exact ⟨hnodup, hsearch⟩

end Descent.Graph
