import Descent.Tree.Basic

/-!
# Where the nodes of a tree stand

A part of a tree stands after the tokens to its left. Equal parts can stand at
several places, and a part that took no token is at the same place as what follows
it, so the place is given beside the part (`Tree.Stands`).

`Tree.AllNodesAt` says something of every node of a tree that stands after some
tokens, with the place of the node; `Tree.AllNodesAlong` says it of trees that stand
one after the other. What is said so of a tree holds of each of its nodes wherever
the node stands (`Tree.AllNodesAt.of_stands`).
-/

namespace Descent.Tree

variable {K α : Type}

/-! ## Places -/

/-- **A part of a tree stands after some tokens**, those of all that is to its
left. -/
inductive Stands (t : Tree K α) : List (Token K) → Tree K α → Prop
  /-- The tree itself stands after none. -/
  | root : Stands t [] t
  /-- A child stands after what its node stands after, and the children before it. -/
  | child {before : List (Token K)} {l : Label K α} {us vs : List (Tree K α)}
      {u : Tree K α} :
      Stands t before (.node l (us ++ u :: vs)) →
      Stands t (before ++ tokensAll us) u

variable {t u : Tree K α} {before : List (Token K)}

/-- A part stands where its tokens are. -/
theorem Stands.exists_tokens (h : t.Stands before u) :
    ∃ after, t.tokens = before ++ u.tokens ++ after := by
  induction h with
  | root => exact ⟨[], by simp⟩
  | @child before l us vs u _ ih =>
    obtain ⟨after, ih⟩ := ih
    refine ⟨tokensAll vs ++ after, ?_⟩
    rw [ih, tokens, tokensAll_append, tokensAll]
    simp only [List.append_assoc]

mutual

/-- The nodes that a walk finds below a part stand somewhere. -/
theorem Stands.exists_of_mem_nodesFrom {v : Tree K α} {e : Nat} :
    ∀ {u : Tree K α} {before : List (Token K)} {d : Nat}, t.Stands before u →
      (v, e) ∈ u.nodesFrom d → ∃ place, t.Stands place v
  | .leaf .., _, _, _, hmem => absurd hmem List.not_mem_nil
  | .node _ _, _, _, h, hmem => by
    rcases List.mem_cons.mp hmem with heq | hmem
    · obtain ⟨rfl, -⟩ := Prod.mk.inj heq
      exact ⟨_, h⟩
    · exact exists_of_mem_nodesOfAll (show t.Stands _ (.node _ ([] ++ _)) from h) hmem

/-- The nodes that a walk finds below some children of a part stand somewhere. -/
theorem Stands.exists_of_mem_nodesOfAll {v : Tree K α} {e : Nat} :
    ∀ {ws us : List (Tree K α)} {l : Label K α} {before : List (Token K)} {d : Nat},
      t.Stands before (.node l (us ++ ws)) → (v, e) ∈ nodesOfAll d ws →
      ∃ place, t.Stands place v
  | [], _, _, _, _, _, hmem => absurd hmem List.not_mem_nil
  | _ :: _, _, _, _, _, h, hmem => by
    rcases List.mem_append.mp hmem with hmem | hmem
    · exact exists_of_mem_nodesFrom (.child h) hmem
    · rw [← List.singleton_append, ← List.append_assoc] at h
      exact exists_of_mem_nodesOfAll h hmem

end

/-- **Every node of a tree stands somewhere.** -/
theorem exists_stands {d : Nat} (h : (u, d) ∈ t.nodes) : ∃ before, t.Stands before u :=
  Stands.root.exists_of_mem_nodesFrom h

/-! ## What holds of nodes at their places -/

mutual

/-- **Something holds of every node of a tree that stands after some tokens**, given
the tokens that the node stands after, its label and its children. -/
def AllNodesAt (P : List (Token K) → Label K α → List (Tree K α) → Prop) :
    List (Token K) → Tree K α → Prop
  | _, leaf .. => True
  | before, node l cs => P before l cs ∧ AllNodesAlong P before cs

/-- Something holds of every node of some trees that stand one after the other. -/
def AllNodesAlong (P : List (Token K) → Label K α → List (Tree K α) → Prop) :
    List (Token K) → List (Tree K α) → Prop
  | _, [] => True
  | before, t :: ts =>
    AllNodesAt P before t ∧ AllNodesAlong P (before ++ t.tokens) ts

end

variable {P : List (Token K) → Label K α → List (Tree K α) → Prop}
  {ts us : List (Tree K α)} {l : Label K α} {cs : List (Tree K α)}

@[simp] theorem allNodesAlong_nil : AllNodesAlong P before [] := trivial

theorem allNodesAlong_cons :
    AllNodesAlong P before (t :: ts) ↔
      AllNodesAt P before t ∧ AllNodesAlong P (before ++ t.tokens) ts :=
  .rfl

@[simp] theorem allNodesAlong_singleton :
    AllNodesAlong P before [t] ↔ AllNodesAt P before t :=
  and_iff_left trivial

theorem allNodesAlong_append :
    AllNodesAlong P before (ts ++ us) ↔
      AllNodesAlong P before ts ∧ AllNodesAlong P (before ++ tokensAll ts) us := by
  induction ts generalizing before with
  | nil => simp [tokensAll]
  | cons t ts ih =>
    rw [List.cons_append, allNodesAlong_cons, allNodesAlong_cons, ih, tokensAll,
      List.append_assoc, and_assoc]

/-- Setting the discard marks changes the labels of the roots alone. -/
theorem AllNodesAlong.map_setDiscarded {d : Bool} (h : AllNodesAlong P before ts)
    (hP : ∀ before l cs, P before l cs → P before { l with discarded := d } cs) :
    AllNodesAlong P before (ts.map (·.setDiscarded d)) := by
  induction ts generalizing before with
  | nil => trivial
  | cons t ts ih =>
    obtain ⟨ht, hts⟩ := h
    rw [List.map_cons, allNodesAlong_cons, tokens_setDiscarded]
    refine ⟨?_, ih hts⟩
    cases t with
    | leaf => trivial
    | node l cs => exact ⟨hP _ _ _ ht.1, ht.2⟩

/-- What is said of a tree is said of its parts at their places. -/
theorem AllNodesAt.of_stands (h : AllNodesAt P [] t) (hu : t.Stands before u) :
    AllNodesAt P before u := by
  induction hu with
  | root => exact h
  | child _ ih => exact (allNodesAlong_append.mp ih.2).2.1

end Descent.Tree
