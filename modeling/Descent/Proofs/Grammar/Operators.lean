import Descent.Grammar.Basic

/-!
# Which operators a head has at a place

A head looks for an operator by the kind of a token and the place where it
stands, and takes the first one declared. The kinds it reports as possible are
collected separately. Before an operand the two agree exactly
(`NonTerminal.mem_leadingKinds_iff`). After one they need not: a kind is
possible if any of its operators binds tightly enough, but only the first is
ever taken.
-/

namespace Descent.NonTerminal

variable {K α : Type} [DecidableEq K] {n : NonTerminal K α} {k : K}
  {o : Operator K α}

/-- An operator found before an operand is declared so. -/
theorem of_leadingOperator? (h : n.leadingOperator? k = some o) :
    o ∈ n.operators ∧ o.kind = k ∧ ∃ p, o.operation = .prefixOp p := by
  have hp := List.find?_some h
  simp only [Bool.and_eq_true, beq_iff_eq, Bool.not_eq_true'] at hp
  refine ⟨List.mem_of_find?_eq_some h, hp.1, ?_⟩
  cases ho : o.operation with
  | prefixOp p => exact ⟨p, rfl⟩
  | infixOp p a => simp [ho, Operation.isTrailing, Operation.affix] at hp
  | postfixOp p => simp [ho, Operation.isTrailing, Operation.affix] at hp

/-- An operator found after an operand is declared so. -/
theorem of_trailingOperator? (h : n.trailingOperator? k = some o) :
    o ∈ n.operators ∧ o.kind = k ∧ o.operation.isTrailing = true := by
  have hp := List.find?_some h
  simp only [Bool.and_eq_true, beq_iff_eq] at hp
  exact ⟨List.mem_of_find?_eq_some h, hp⟩

/-- **The kinds possible before an operand** are those of which an operator is
found there. -/
theorem mem_leadingKinds_iff :
    k ∈ n.leadingKinds ↔ ∃ o, n.leadingOperator? k = some o := by
  rw [← Option.isSome_iff_exists, leadingOperator?, List.find?_isSome]
  simp only [leadingKinds, operatorsWith, List.mem_map, List.mem_filter,
    Operation.isTrailing, beq_iff_eq, Bool.and_eq_true, Bool.not_eq_true',
    bne_eq_false_iff_eq]
  constructor
  · rintro ⟨o, ⟨ho, ha⟩, hk⟩
    exact ⟨o, ho, hk, ha⟩
  · rintro ⟨o, ho, hk, ha⟩
    exact ⟨o, ⟨ho, ha⟩, hk⟩

/-- A kind possible after an operand is one of which an operator is found
there, if nothing is asked of how tightly it binds. -/
theorem exists_of_mem_trailingKinds {least : Nat} (h : k ∈ n.trailingKinds least) :
    ∃ o, n.trailingOperator? k = some o := by
  rw [← Option.isSome_iff_exists, trailingOperator?, List.find?_isSome]
  simp only [trailingKinds, List.mem_map, List.mem_filter, Bool.and_eq_true] at h
  obtain ⟨o, ⟨ho, ht, _⟩, hk⟩ := h
  exact ⟨o, ho, by simp [hk, ht]⟩

/-- If the operator found of a kind binds tightly enough, the kind is possible. -/
theorem mem_trailingKinds {least : Nat}
    (h : (n.trailingOperator? k).filter (least ≤ ·.precedence) = some o) :
    k ∈ n.trailingKinds least := by
  obtain ⟨ho, hle⟩ := Option.filter_eq_some_iff.mp h
  obtain ⟨hmem, hk, ht⟩ := of_trailingOperator? ho
  refine List.mem_map.mpr ⟨o, List.mem_filter.mpr ⟨hmem, ?_⟩, hk⟩
  rw [ht, Bool.true_and]
  exact hle

/-- **A non-terminal is barren** if it has neither a rule nor an operator that
could begin an operand: nothing can be matched with it, and there is nothing to
try. -/
def IsBarren (n : NonTerminal K α) : Prop := n.rules = [] ∧ n.leadingKinds = []

/-- With an operator before operands there is something to try. -/
theorem not_isBarren_of_leadingOperator? (h : n.leadingOperator? k = some o) :
    ¬ n.IsBarren := by
  rintro ⟨_, hnone⟩
  have := mem_leadingKinds_iff.mpr ⟨o, h⟩
  rw [hnone] at this
  exact absurd this List.not_mem_nil

end Descent.NonTerminal
