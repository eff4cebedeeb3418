import Descent.Proofs.Grammar.Forms
import Descent.Proofs.Grammar.LeftRank
import Mathlib.Data.List.Chain

/-!
# The verdict on left recursion is exact

A non-terminal is left-recursive if a form is derived from it that begins with it
again, apart from what vanishes (`Grammar.BeginsWith`). Which forms are derived is
a matter of derivations of any length; the verdict is that of a search in a finite
graph. Between the two stands the relation of which name leads to which:

* a name begins with another if and only if it leads to it in some steps
  (`Grammar.beginsWith_iff`), and
* what declared names lead to are the edges of the graph, so that names which lead
  back to themselves are the closed walks in it
  (`Grammar.isLeftRecursive_iff_leadsTo`).
-/

namespace Descent.Grammar

variable {K α : Type} {g : Grammar K α} {x y z : String}

open Relation (ReflTransGen TransGen)

/-- **A name begins with another**: in one or more steps a form is derived from it
in which the other is first, apart from what vanishes. -/
def BeginsWith (g : Grammar K α) (x y : String) : Prop :=
  ∃ before d after,
    TransGen g.Rewrites [.reference x false] (before ++ .reference y d :: after) ∧
      g.Vanishes before

/-! ## Derivations and leading -/

/-- What a form exposes can be replaced by what that exposes. -/
theorem Exposes.trans {form : List (Clause K)} (hx : g.Exposes form x)
    (hy : ∀ d, g.Exposes [.reference x d] y) : g.Exposes form y := by
  obtain ⟨before, d, after, hform, hbefore⟩ := hx
  have hmore := ((hy d).append_right after).append_left hbefore
  exact hmore.of_derives (by simpa using hform)

/-- A name exposes what it leads to. -/
theorem exposes_of_leadsTo (h : ReflTransGen g.LeadsTo x y) (d : Bool) :
    g.Exposes [.reference x d] y := by
  induction h using ReflTransGen.head_induction_on generalizing d with
  | refl => exact exposes_reference y d
  | head hstep _ ih =>
    obtain ⟨n, hx, rule, hrule, hz⟩ := hstep
    have hfirst := (Expands.reference hx hrule (d := d)).exposes
      (exposes_of_mem_leftmostSeq rule.clauses hz)
    exact hfirst.trans ih

/-- The one way to replace a form of one reference is by a rule. -/
theorem exists_rule_of_rewrites {d : Bool} {form : List (Clause K)}
    (h : g.Rewrites [.reference x d] form) :
    ∃ n, g.get? x = some n ∧ ∃ rule ∈ n.rules, form = rule.clauses := by
  generalize heq : [Clause.reference x d] = start at h
  obtain ⟨before, after, hc⟩ := h
  obtain ⟨rfl, heq⟩ : before = [] ∧ _ :: after = [.reference x d] := by
    cases before with
    | nil => exact ⟨rfl, heq.symm⟩
    | cons c before => simp at heq
  obtain ⟨rfl, rfl⟩ := List.cons.inj heq
  cases hc with
  | reference hx hrule => exact ⟨_, hx, _, hrule, by simp⟩

/-- **A name begins with another if and only if it leads to it** in some steps. -/
theorem beginsWith_iff : g.BeginsWith x y ↔ TransGen g.LeadsTo x y := by
  constructor
  · rintro ⟨before, d, after, h, hbefore⟩
    obtain ⟨form, hfirst, hmore⟩ := TransGen.head'_iff.mp h
    obtain ⟨n, hx, rule, hrule, rfl⟩ := exists_rule_of_rewrites hfirst
    obtain ⟨z, hz, hzy⟩ :=
      exists_leftmost_of_exposes ⟨before, d, after, hmore, hbefore⟩
    exact .head' ⟨n, hx, rule, hrule, hz⟩ hzy
  · intro h
    obtain ⟨z, ⟨n, hx, rule, hrule, hz⟩, hzy⟩ := TransGen.head'_iff.mp h
    obtain ⟨before, d, after, hform, hbefore⟩ :=
      (exposes_of_mem_leftmostSeq rule.clauses hz).trans
        fun d => exposes_of_leadsTo hzy d
    have hstep : g.Rewrites [.reference x false] rule.clauses := by
      simpa using Rewrites.within [] [] (Expands.reference hx hrule)
    exact ⟨before, d, after, .head' hstep hform, hbefore⟩

/-! ## Leading and the graph -/

/-- A name that leads somewhere is declared. -/
theorem LeadsTo.contains (h : g.LeadsTo x y) : g.contains x = true := by
  obtain ⟨n, hx, _⟩ := h
  rw [contains_eq_isSome_get?, hx]
  rfl

theorem exists_get?_of_contains (h : g.contains x = true) :
    ∃ n, g.get? x = some n := by
  rwa [contains_eq_isSome_get?, Option.isSome_iff_exists] at h

/-- What a name leads to, if it is declared, is an edge of the graph. -/
theorem LeadsTo.mem_successors (h : g.LeadsTo x y) {i j : Nat}
    (hi : g.indexOf? x = some i) (hj : g.indexOf? y = some j) :
    j ∈ g.leftmostGraph.successors i := by
  obtain ⟨n, hx, rule, hrule, hy⟩ := h
  obtain ⟨i', hi', hn⟩ := exists_indexOf? hx
  obtain rfl := Option.some.inj (hi.symm.trans hi')
  rw [successors_leftmostGraph hn, mem_leftmostIndices]
  exact ⟨rule, hrule, y, hy, hj⟩

/-- Names that lead to a declared name are joined to it by a walk. -/
theorem walk_of_leadsTo (h : TransGen g.LeadsTo x y) {j : Nat}
    (hj : g.indexOf? y = some j) :
    ∃ i, g.indexOf? x = some i ∧
      Graph.Walk g.leftmostGraph (fun _ => True) i j := by
  have hindex {z w : String} (hz : g.LeadsTo z w) :
      ∃ i, g.indexOf? z = some i := by
    obtain ⟨n, hn⟩ := exists_get?_of_contains hz.contains
    obtain ⟨i, hi, _⟩ := exists_indexOf? hn
    exact ⟨i, hi⟩
  induction h using TransGen.head_induction_on with
  | single hstep =>
    obtain ⟨i, hi⟩ := hindex hstep
    exact ⟨i, hi, .edge (hstep.mem_successors hi hj)⟩
  | head hstep _ ih =>
    obtain ⟨k, hk, hwalk⟩ := ih
    obtain ⟨i, hi⟩ := hindex hstep
    exact ⟨i, hi, .step (hstep.mem_successors hi hk) trivial hwalk⟩

/-- The non-terminal at a place is found by the name there. -/
theorem get?_nameAt {i : Nat} {n : NonTerminal K α}
    (h : g.nonTerminals[i]? = some n) : g.get? (g.nameAt i) = some n := by
  have hname : g.nameAt i = n.name := by
    rw [nameAt, names, List.getD_eq_getElem?_getD, List.getElem?_map, h]
    rfl
  rw [hname]
  exact get?_of_mem (List.mem_of_getElem? h)

/-- An edge of the graph leads from name to name. -/
theorem leadsTo_of_mem_successors {i j : Nat}
    (h : j ∈ g.leftmostGraph.successors i) :
    g.LeadsTo (g.nameAt i) (g.nameAt j) := by
  cases hi : g.nonTerminals[i]? with
  | none =>
    rw [Graph.successors, leftmostGraph, List.getD_eq_getElem?_getD,
      List.getElem?_map, hi] at h
    exact absurd h List.not_mem_nil
  | some n =>
    rw [successors_leftmostGraph hi, mem_leftmostIndices] at h
    obtain ⟨rule, hrule, y, hy, hj⟩ := h
    obtain ⟨hlt, hname, _⟩ := List.findIdx?_eq_some_iff_getElem.mp hj
    have hj : g.nameAt j = y := by
      rw [nameAt, names, List.getD_eq_getElem?_getD, List.getElem?_map,
        List.getElem?_eq_getElem hlt]
      exact eq_of_beq hname
    exact ⟨n, get?_nameAt hi, rule, hrule, hj ▸ hy⟩

/-- **A cycle that is found is one of leading**, back to the name where it
starts. -/
theorem isChain_of_mem_leftCycles {cycle : List String}
    (h : cycle ∈ g.leftCycles) :
    (∃ x inner, cycle = x :: (inner ++ [x])) ∧ cycle.IsChain g.LeadsTo := by
  obtain ⟨indices, hindices, rfl⟩ := List.mem_map.mp h
  obtain ⟨⟨v, inner, rfl⟩, hchain⟩ :=
    Graph.isChain_of_mem_elementaryCycles hindices
  refine ⟨⟨g.nameAt v, inner.map g.nameAt, by simp⟩, ?_⟩
  rw [List.isChain_map]
  exact hchain.imp fun _ _ => leadsTo_of_mem_successors

/-- The ends of a chain are joined by its steps. -/
theorem transGen_of_isChain {β : Type} {r : β → β → Prop} {a b : β}
    {inner : List β} (h : (a :: (inner ++ [b])).IsChain r) : TransGen r a b := by
  induction inner generalizing a with
  | nil => exact .single (List.isChain_cons_cons.mp h).1
  | cons c inner ih =>
    obtain ⟨hac, h⟩ := List.isChain_cons_cons.mp h
    exact .head hac (ih h)

/-- **A grammar is left-recursive exactly if a name leads back to itself.** -/
theorem isLeftRecursive_iff_leadsTo :
    g.isLeftRecursive = true ↔ ∃ x, TransGen g.LeadsTo x x := by
  constructor
  · intro h
    have hne : g.leftCycles ≠ [] := by simpa [isLeftRecursive] using h
    obtain ⟨cycle, hcycle⟩ := List.exists_mem_of_ne_nil _ hne
    obtain ⟨⟨x, inner, rfl⟩, hchain⟩ := isChain_of_mem_leftCycles hcycle
    exact ⟨x, transGen_of_isChain hchain⟩
  · rintro ⟨x, hx⟩
    by_contra hnot
    obtain ⟨z, hz, _⟩ := TransGen.head'_iff.mp hx
    obtain ⟨n, hn⟩ := exists_get?_of_contains hz.contains
    obtain ⟨i, hi, _⟩ := exists_indexOf? hn
    obtain ⟨j, hj, hwalk⟩ := walk_of_leadsTo hx hi
    obtain rfl := Option.some.inj (hi.symm.trans hj)
    exact Graph.not_walk_self (elementaryCycles_eq_nil (by simpa using hnot)) i
      hwalk

/-- **The verdict on left recursion is exact.** A grammar is found to be
left-recursive if and only if some declared name begins with itself, and every
cycle that is reported runs from a name back to it through names each of which
begins with the next. -/
theorem isLeftRecursive_iff_beginsWith (g : Grammar K α) :
    (g.isLeftRecursive = true ↔
      ∃ x, g.contains x = true ∧ g.BeginsWith x x) ∧
    ∀ cycle ∈ g.leftCycles,
      (∃ x inner, cycle = x :: (inner ++ [x])) ∧ cycle.IsChain g.BeginsWith := by
  refine ⟨isLeftRecursive_iff_leadsTo.trans ⟨?_, ?_⟩, fun cycle hcycle => ?_⟩
  · rintro ⟨x, hx⟩
    obtain ⟨z, hz, _⟩ := TransGen.head'_iff.mp hx
    exact ⟨x, hz.contains, beginsWith_iff.mpr hx⟩
  · rintro ⟨x, _, hx⟩
    exact ⟨x, beginsWith_iff.mp hx⟩
  · obtain ⟨hends, hchain⟩ := isChain_of_mem_leftCycles hcycle
    exact ⟨hends, hchain.imp fun _ _ h => beginsWith_iff.mpr (.single h)⟩

end Descent.Grammar
