import Descent.Proofs.Tree.LiveFold

/-!
# The live part of a tree

Reduction does not look into what is discarded. A part of a tree is live if it is the
root or is reached by steps to children that are not discarded (`Tree.Live`). Whether
the root is marked as discarded does not matter.

Live nodes are reduced in post-order, from left to right: a node comes after what is
below it and before what is to the right of it (`Tree.Before`, by paths).
`Tree.liveNodes` lists them in this order. Reduction fails exactly if one of them
needs a callback that it does not have, and it is the first such node that it names
(`Tree.value_eq_error_iff`).
-/

namespace Descent

variable {K α : Type}

/-- Whether a node needs a callback and has none. -/
def Label.lacksCallback (l : Label K α) : Bool := l.isCaller && l.callback.isNone

namespace Tree

/-! ## Parts and their order -/

/-- **A live part of a tree**, at the path to it: a step down goes to a child that is
not discarded. -/
inductive Live : Tree K α → List Nat → Tree K α → Prop
  /-- The tree itself. -/
  | root {t : Tree K α} : Live t [] t
  /-- A live part of a child. -/
  | child {l : Label K α} {cs : List (Tree K α)} {i : Nat} {c u : Tree K α}
      {path : List Nat} :
      cs[i]? = some c → c.isDiscarded = false → Live c path u →
      Live (.node l cs) (i :: path) u

/-- A path leads to one part. -/
theorem Live.unique {t u v : Tree K α} {path : List Nat} (h : t.Live path u)
    (h' : t.Live path v) : u = v := by
  induction h with
  | root =>
    cases h'
    rfl
  | child hc _ _ ih =>
    cases h' with
    | child hc' _ h' =>
      obtain rfl := Option.some.inj (hc.symm.trans hc')
      exact ih h'

/-- **The order from left to right in which parts come before what they are in**, by
their paths. -/
inductive Before : List Nat → List Nat → Prop
  /-- What is below a node comes before it. -/
  | root {i : Nat} {path : List Nat} : Before (i :: path) []
  /-- What is in a child comes before what is in the next ones. -/
  | left {i j : Nat} {path path' : List Nat} : i < j → Before (i :: path) (j :: path')
  /-- Parts of one child are ordered there. -/
  | inside {i : Nat} {path path' : List Nat} :
      Before path path' → Before (i :: path) (i :: path')

theorem Before.asymm {path path' : List Nat} (h : Before path path') :
    ¬ Before path' path := by
  induction h with
  | root => exact fun h => by cases h
  | left hlt =>
    rintro (_ | hlt' | _)
    · exact Nat.lt_asymm hlt hlt'
    · exact Nat.lt_irrefl _ hlt
  | inside _ ih =>
    rintro (_ | hlt | h)
    · exact Nat.lt_irrefl _ hlt
    · exact ih h

/-! ## The live nodes in order -/

/-- **A node of a tree** with the path to it. -/
structure Spot (K α : Type) where
  /-- The path. -/
  path : List Nat
  /-- What is written on the node. -/
  label : Label K α
  /-- The children of the node. -/
  children : List (Tree K α)

namespace Spot

/-- The node. -/
def tree (s : Spot K α) : Tree K α := .node s.label s.children

/-- The node as one of the tree whose child at a place it was found in. -/
def inChild (i : Nat) (s : Spot K α) : Spot K α := { s with path := i :: s.path }

/-- Whether the node needs a callback and has none. -/
def lacksCallback (s : Spot K α) : Bool := s.label.lacksCallback

end Spot

mutual

/-- **The live nodes of a tree** in post-order. -/
def liveNodes : Tree K α → List (Spot K α)
  | leaf .. => []
  | node l cs => liveNodesAll 0 cs ++ [⟨[], l, cs⟩]

/-- The live nodes in some children of a node, the first of which stands at a
place. -/
def liveNodesAll (i : Nat) : List (Tree K α) → List (Spot K α)
  | [] => []
  | t :: ts =>
    (if t.isDiscarded then [] else (liveNodes t).map (Spot.inChild i)) ++
      liveNodesAll (i + 1) ts

end

/-- A live part of a child, as one of the node. -/
theorem live_cons_iff {l : Label K α} {cs : List (Tree K α)} {path : List Nat}
    {u : Tree K α} :
    (node l cs).Live path u ↔ path = [] ∧ u = node l cs ∨
      ∃ j c rest, path = j :: rest ∧ cs[j]? = some c ∧ c.isDiscarded = false ∧
        c.Live rest u := by
  constructor
  · intro h
    cases h with
    | root => exact .inl ⟨rfl, rfl⟩
    | child hc hd hu => exact .inr ⟨_, _, _, rfl, hc, hd, hu⟩
  · rintro (⟨rfl, rfl⟩ | ⟨j, c, rest, rfl, hc, hd, hu⟩)
    · exact .root
    · exact .child hc hd hu

mutual

/-- **The live nodes are the nodes among the live parts.** -/
theorem mem_liveNodes_iff (s : Spot K α) :
    (t : Tree K α) → (s ∈ t.liveNodes ↔ t.Live s.path s.tree)
  | leaf .. => by
    refine ⟨fun h => absurd h List.not_mem_nil, fun h => ?_⟩
    obtain ⟨path, l, cs⟩ := s
    cases h
  | node l cs => by
    rw [liveNodes, List.mem_append, List.mem_singleton, mem_liveNodesAll_iff s 0 cs,
      live_cons_iff, or_comm]
    refine or_congr ⟨?_, ?_⟩ ?_
    · rintro rfl
      exact ⟨rfl, rfl⟩
    · rintro ⟨hpath, htree⟩
      obtain ⟨path, l', cs'⟩ := s
      obtain rfl : path = [] := hpath
      obtain ⟨rfl, rfl⟩ := Tree.node.inj htree
      rfl
    · simp only [Nat.zero_add]

theorem mem_liveNodesAll_iff (s : Spot K α) (i : Nat) :
    (ts : List (Tree K α)) → (s ∈ liveNodesAll i ts ↔
      ∃ j c rest, s.path = (i + j) :: rest ∧ ts[j]? = some c ∧ c.isDiscarded = false ∧
        c.Live rest s.tree)
  | [] => by simp [liveNodesAll]
  | t :: ts => by
    rw [liveNodesAll, List.mem_append, mem_liveNodesAll_iff s (i + 1) ts]
    constructor
    · rintro (h | ⟨j, c, rest, hpath, hc, hd, hu⟩)
      · cases hd : t.isDiscarded with
        | true => simp [hd] at h
        | false =>
          simp only [hd, Bool.false_eq_true, if_false, List.mem_map] at h
          obtain ⟨s', hs', rfl⟩ := h
          exact ⟨0, t, s'.path, rfl, rfl, hd, (mem_liveNodes_iff s' t).mp hs'⟩
      · exact ⟨j + 1, c, rest, by rw [hpath, Nat.add_assoc, Nat.add_comm 1], hc, hd, hu⟩
    · rintro ⟨j, c, rest, hpath, hc, hd, hu⟩
      cases j with
      | zero =>
        obtain rfl := Option.some.inj hc
        refine .inl ?_
        rw [hd, if_neg Bool.false_ne_true, List.mem_map]
        refine ⟨⟨rest, s.label, s.children⟩, (mem_liveNodes_iff _ t).mpr hu, ?_⟩
        obtain ⟨path, l, cs⟩ := s
        obtain rfl : path = i :: rest := hpath
        rfl
      | succ j =>
        exact .inr ⟨j, c, rest, by rw [hpath, Nat.add_assoc, Nat.add_comm 1], hc, hd, hu⟩

end

mutual

/-- **The live nodes are listed in order.** -/
theorem pairwise_liveNodes :
    (t : Tree K α) → t.liveNodes.Pairwise fun s s' => Before s.path s'.path
  | leaf .. => List.Pairwise.nil
  | node l cs => by
    refine List.pairwise_append.mpr ⟨pairwise_liveNodesAll 0 cs,
      List.pairwise_singleton _ _, fun s hs s' hs' => ?_⟩
    obtain rfl := List.mem_singleton.mp hs'
    obtain ⟨j, c, rest, hpath, -⟩ := (mem_liveNodesAll_iff s 0 cs).mp hs
    rw [hpath]
    exact .root

theorem pairwise_liveNodesAll (i : Nat) :
    (ts : List (Tree K α)) →
      (liveNodesAll i ts).Pairwise fun s s' => Before s.path s'.path
  | [] => List.Pairwise.nil
  | t :: ts => by
    rw [liveNodesAll]
    refine List.pairwise_append.mpr ⟨?_, pairwise_liveNodesAll (i + 1) ts,
      fun s hs s' hs' => ?_⟩
    · split
      · exact List.Pairwise.nil
      · exact List.pairwise_map.mpr ((pairwise_liveNodes t).imp Before.inside)
    · split at hs
      · exact absurd hs List.not_mem_nil
      · obtain ⟨s, -, rfl⟩ := List.mem_map.mp hs
        obtain ⟨j, c, rest, hpath, -⟩ := (mem_liveNodesAll_iff s' (i + 1) ts).mp hs'
        rw [hpath]
        exact .left (by omega)

end

/-! ## Nodes that lack their callbacks -/

/-- What is missing, if anything is. -/
def missing? {β : Type} : Except MissingCallback β → Option MissingCallback
  | .error e => some e
  | .ok _ => none

/-- What is missing at the first of some nodes that lacks its callback. -/
def firstMissing? (ss : List (Spot K α)) : Option MissingCallback :=
  (ss.find? Spot.lacksCallback).map fun s => ⟨s.label.name⟩

@[simp] theorem firstMissing?_append (ss ss' : List (Spot K α)) :
    firstMissing? (ss ++ ss') = (firstMissing? ss).or (firstMissing? ss') := by
  rw [firstMissing?, List.find?_append, Option.map_or]
  rfl

@[simp] theorem firstMissing?_map_inChild (i : Nat) (ss : List (Spot K α)) :
    firstMissing? (ss.map (Spot.inChild i)) = firstMissing? ss := by
  rw [firstMissing?, List.find?_map, Option.map_map]
  rfl

/-- A node has a value unless it lacks its callback. -/
theorem missing?_nodeValue (l : Label K α) (cs : List (Tree K α)) (matched : Bool)
    (values : List (Value K α)) :
    missing? (nodeValue l matched values) = firstMissing? [⟨[], l, cs⟩] := by
  unfold nodeValue
  cases hkind : l.kind <;> cases hcallback : l.callback <;>
    simp [missing?, firstMissing?, Spot.lacksCallback, Label.lacksCallback,
      Label.isCaller, hkind, hcallback]

mutual

/-- **Reduction fails at the first live node that lacks its callback.** -/
theorem missing?_value : (t : Tree K α) → missing? t.value = firstMissing? t.liveNodes
  | leaf .. => rfl
  | node l cs => by
    have hcs := missing?_liveValues 0 cs
    rw [liveNodes, firstMissing?_append, ← hcs, value]
    cases liveValues cs with
    | error e => rfl
    | ok values => exact missing?_nodeValue l cs _ values

theorem missing?_liveValues (i : Nat) :
    (ts : List (Tree K α)) →
      missing? (liveValues ts) = firstMissing? (liveNodesAll i ts)
  | [] => rfl
  | t :: ts => by
    have ht := missing?_value t
    have hts := missing?_liveValues (i + 1) ts
    rw [liveNodesAll, firstMissing?_append, ← hts, liveValues]
    cases t.isDiscarded with
    | true => rfl
    | false =>
      simp only [Bool.false_eq_true, if_false, firstMissing?_map_inChild, ← ht]
      cases t.value with
      | error e => rfl
      | ok v => cases liveValues ts <;> rfl

end

theorem missing?_eq_some_iff {β : Type} {x : Except MissingCallback β}
    {e : MissingCallback} : missing? x = some e ↔ x = .error e := by
  cases x <;> simp [missing?]

/-- **A node is the first of the live ones that lack their callbacks.** -/
def IsFirstMissing (t : Tree K α) (path : List Nat) (l : Label K α)
    (cs : List (Tree K α)) : Prop :=
  t.Live path (node l cs) ∧ l.lacksCallback = true ∧
    ∀ path' l' cs', t.Live path' (node l' cs') → l'.lacksCallback = true →
      path' = path ∨ Before path path'

/-- The first in the list is the first in the order. -/
theorem isFirstMissing_of_find? {t : Tree K α} {s : Spot K α}
    (h : t.liveNodes.find? Spot.lacksCallback = some s) :
    t.IsFirstMissing s.path s.label s.children := by
  obtain ⟨hlacks, before, after, hlist, hbefore⟩ := List.find?_eq_some_iff_append.mp h
  have hpairwise := hlist ▸ t.pairwise_liveNodes
  obtain ⟨-, hafter, -⟩ := List.pairwise_append.mp hpairwise
  refine ⟨(mem_liveNodes_iff s t).mp (List.mem_of_find?_eq_some h), hlacks,
    fun path' l' cs' hlive hlacks' => ?_⟩
  have hmem := (mem_liveNodes_iff ⟨path', l', cs'⟩ t).mpr hlive
  rw [hlist, List.mem_append, List.mem_cons] at hmem
  rcases hmem with hmem | rfl | hmem
  · have hnot := hbefore _ hmem
    rw [Spot.lacksCallback, hlacks'] at hnot
    cases hnot
  · exact .inl rfl
  · exact .inr ((List.pairwise_cons.mp hafter).1 _ hmem)

/-- There is one first. -/
theorem IsFirstMissing.unique {t : Tree K α} {path path' : List Nat} {l l' : Label K α}
    {cs cs' : List (Tree K α)} (h : t.IsFirstMissing path l cs)
    (h' : t.IsFirstMissing path' l' cs') : l = l' := by
  obtain ⟨hlive, hlacks, hfirst⟩ := h
  obtain ⟨hlive', hlacks', hfirst'⟩ := h'
  have hpath : path' = path := by
    rcases hfirst _ _ _ hlive' hlacks' with heq | hbefore
    · exact heq
    · rcases hfirst' _ _ _ hlive hlacks with heq | hbefore'
      · exact heq.symm
      · exact absurd hbefore' hbefore.asymm
  subst hpath
  exact (Tree.node.inj (hlive.unique hlive')).1

/-- **Reduction fails exactly at the first live node that lacks its callback**, and
names it. -/
theorem value_eq_error_iff {t : Tree K α} {e : MissingCallback} :
    t.value = .error e ↔
      ∃ path l cs, t.IsFirstMissing path l cs ∧ e = ⟨l.name⟩ := by
  rw [← missing?_eq_some_iff, missing?_value, firstMissing?, Option.map_eq_some_iff]
  constructor
  · rintro ⟨s, hs, rfl⟩
    exact ⟨_, _, _, isFirstMissing_of_find? hs, rfl⟩
  · rintro ⟨path, l, cs, hfirst, rfl⟩
    cases hs : t.liveNodes.find? Spot.lacksCallback with
    | none =>
      have hmem := (mem_liveNodes_iff ⟨path, l, cs⟩ t).mpr hfirst.1
      exact absurd hfirst.2.1 (List.find?_eq_none.mp hs _ hmem)
    | some s =>
      exact ⟨s, rfl, by rw [(isFirstMissing_of_find? hs).unique hfirst]⟩

/-- Reduction fails exactly if a live node lacks its callback. -/
theorem exists_value_eq_error_iff {t : Tree K α} :
    (∃ e, t.value = .error e) ↔
      ∃ path l cs, t.Live path (node l cs) ∧ l.lacksCallback = true := by
  constructor
  · rintro ⟨e, he⟩
    obtain ⟨path, l, cs, ⟨hlive, hlacks, -⟩, -⟩ := value_eq_error_iff.mp he
    exact ⟨path, l, cs, hlive, hlacks⟩
  · rintro ⟨path, l, cs, hlive, hlacks⟩
    have hmem := (mem_liveNodes_iff ⟨path, l, cs⟩ t).mpr hlive
    cases hs : t.liveNodes.find? Spot.lacksCallback with
    | none => exact absurd hlacks (List.find?_eq_none.mp hs _ hmem)
    | some s =>
      exact ⟨_, value_eq_error_iff.mpr ⟨_, _, _, isFirstMissing_of_find? hs, rfl⟩⟩

end Tree

end Descent
