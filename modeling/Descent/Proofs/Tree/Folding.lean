import Descent.Matching.Matcher
import Descent.Proofs.Grammar.Layering

/-!
# Folding the repetitions of levels

In a layered grammar an expression is a tree of repetitions: the node of a level
has a first operand and the operators and operands that were repeated. Folding
such repetitions to the left, and leaving out the nodes of levels, gives a tree of
operators (`Layering.fold`).

What is not about levels is left alone by folding, and a level is folded from its
parts (`Layering.fold_levelTree`).
-/

namespace Descent

variable {K α : Type}

open Matcher (ruleTree operatorTree clauseTree)

namespace Layering

variable [DecidableEq K] {g : Grammar K α} (l : Layering g)

/-- An operator of the head over two operands. -/
def join (left : Tree K α) (t : Token K) (right : Tree K α) : Tree K α :=
  match l.head.trailingOperator? t.kind with
  | some op => operatorTree l.head op [left, .leaf t false, right]
  | none => left

/-- **Operators and operands joined to the left**, beginning with an operand. -/
def chain (left : Tree K α) : List (Tree K α) → Tree K α
  | .leaf t _ :: right :: more => chain (l.join left t right) more
  | _ => left

/-- **A node over folded children**: the head is the first level, the operands
are rules of the head, and a level of operators is joined to the left. -/
def refold (label : Label K α) (children : List (Tree K α)) : Tree K α :=
  if label.kind = .rule then
    if label.name = l.head.name then
      match children with
      | [tree] => tree.setDiscarded label.discarded
      | _ => .node label children
    else if label.name = l.level l.depth then
      .node { label with name := l.head.name } children
    else if label.name ∈ l.levels then
      match children with
      | [first, .node _ repeated] =>
        (l.chain first repeated).setDiscarded label.discarded
      | _ => .node label children
    else .node label children
  else .node label children

mutual

/-- **A tree with its levels folded.** -/
def fold : Tree K α → Tree K α
  | .leaf t d => .leaf t d
  | .node label children => l.refold label (foldAll children)

/-- Trees with their levels folded. -/
def foldAll : List (Tree K α) → List (Tree K α)
  | [] => []
  | t :: ts => fold t :: foldAll ts

end

theorem foldAll_eq_map (ts : List (Tree K α)) : l.foldAll ts = ts.map l.fold := by
  induction ts with
  | nil => rfl
  | cons t ts ih => rw [foldAll, ih, List.map_cons]

/-! ## What folding leaves alone -/

theorem refold_setDiscarded (d : Bool) (label : Label K α)
    (cs : List (Tree K α)) :
    l.refold { label with discarded := d } cs =
      (l.refold label cs).setDiscarded d := by
  unfold refold
  split
  · split
    · split
      · exact (Tree.setDiscarded_setDiscarded _ _ _).symm
      · rfl
    · split
      · rfl
      · split
        · split
          · exact (Tree.setDiscarded_setDiscarded _ _ _).symm
          · rfl
        · rfl
  · rfl

/-- Folding keeps a discard mark. -/
@[simp] theorem fold_setDiscarded (d : Bool) (t : Tree K α) :
    l.fold (t.setDiscarded d) = (l.fold t).setDiscarded d := by
  cases t with
  | leaf => rfl
  | node label cs => exact l.refold_setDiscarded d label (l.foldAll cs)

@[simp] theorem isDiscarded_fold (t : Tree K α) :
    (l.fold t).isDiscarded = t.isDiscarded := by
  have hmark := congrArg Tree.isDiscarded (l.fold_setDiscarded t.isDiscarded t)
  rwa [Tree.setDiscarded_isDiscarded, Tree.isDiscarded_setDiscarded] at hmark

section Refold

variable {label : Label K α} {cs : List (Tree K α)}

/-- A node that is not a rule's is left alone. -/
theorem refold_of_kind (hkind : label.kind ≠ .rule) :
    l.refold label cs = .node label cs := by
  unfold refold
  rw [if_neg hkind]

/-- A rule of another name than the head and the levels is left alone. -/
theorem refold_of_not_mem (hhead : label.name ≠ l.head.name)
    (hlevel : label.name ∉ l.levels) : l.refold label cs = .node label cs := by
  have hdepth : label.name ≠ l.level l.depth :=
    fun h => hlevel (h ▸ l.level_mem (Nat.le_refl _))
  unfold refold
  rw [if_neg hhead, if_neg hdepth, if_neg hlevel, ite_self]

/-- A level of operators is joined to the left. -/
theorem refold_level {label' : Label K α} {first : Tree K α}
    (hkind : label.kind = .rule) (hhead : label.name ≠ l.head.name)
    (hdepth : label.name ≠ l.level l.depth) (hlevel : label.name ∈ l.levels) :
    l.refold label [first, .node label' cs] =
      (l.chain first cs).setDiscarded label.discarded := by
  unfold refold
  rw [if_pos hkind, if_neg hhead, if_neg hdepth, if_pos hlevel]

end Refold

/-- Options and repetitions are no levels. -/
theorem fold_clauseTree [TokenKind K] (c : Clause K) {kind : NodeKind}
    (hkind : kind ≠ .rule) (us : List (Tree K α)) :
    l.fold (clauseTree c kind us) = clauseTree c kind (us.map l.fold) := by
  rw [clauseTree, fold, foldAll_eq_map]
  exact l.refold_of_kind hkind

/-- Operators are no levels. -/
theorem fold_operatorTree (n : NonTerminal K α) (op : Operator K α)
    (us : List (Tree K α)) :
    l.fold (operatorTree n op us) = operatorTree n op (us.map l.fold) := by
  have hkind : (Label.expression n.name op.operation op.callback).kind ≠ .rule :=
    fun h => by cases h
  rw [operatorTree, fold, foldAll_eq_map]
  exact l.refold_of_kind hkind

/-- Rules of other names than the head and the levels are no levels. -/
theorem fold_ruleTree {n : NonTerminal K α} (hn : n ∈ g.nonTerminals)
    (hhead : n.name ≠ l.head.name) (rule : Rule K α) (us : List (Tree K α)) :
    l.fold (ruleTree n rule us) = ruleTree n rule (us.map l.fold) := by
  rw [ruleTree, fold, foldAll_eq_map]
  exact l.refold_of_not_mem hhead (l.not_mem_levels hn)

/-! ## What folding makes of levels -/

omit [DecidableEq K] in
theorem level_ne_head {i : Nat} (hi : i ≤ l.depth) :
    l.level i ≠ l.head.name :=
  fun h => l.not_mem_levels l.head_mem (h ▸ l.level_mem hi)

/-- A rule of the operands becomes a rule of the head. -/
theorem fold_ruleTree_operands (rule : Rule K α) (us : List (Tree K α)) :
    l.fold (ruleTree (l.nonTerminal l.depth) rule us) =
      ruleTree l.head rule (us.map l.fold) := by
  have hhead : l.level l.depth ≠ l.head.name := l.level_ne_head (Nat.le_refl _)
  rw [ruleTree, fold, foldAll_eq_map]
  simp only [refold, Label.rule, nonTerminal, if_true, if_neg hhead]
  rfl

/-- The head becomes the first level. -/
theorem fold_ruleTree_top {t : Tree K α} (ht : t.isDiscarded = false)
    (rule : Rule K α) : l.fold (ruleTree l.top rule [t]) = l.fold t := by
  have hmark : (l.fold t).isDiscarded = false := (l.isDiscarded_fold t).trans ht
  rw [ruleTree, fold, foldAll_eq_map]
  simp only [refold, Label.rule, top, if_true, List.map_cons, List.map_nil]
  exact Tree.setDiscarded_of_eq hmark

/-- What is repeated at a level: operators with their right operands. -/
def flat (ps : List (Token K × Tree K α)) : List (Tree K α) :=
  ps.flatMap fun p => [.leaf p.1 false, p.2]

/-- **The node of a level** over a first operand and what is repeated. -/
def levelTree [TokenKind K] (i : Nat) (u : Tree K α)
    (ps : List (Token K × Tree K α)) : Tree K α :=
  ruleTree (l.nonTerminal i) (l.levelRule i)
    [u, clauseTree (.star (l.body i)) .many (flat ps)]

/-- Operators and right operands joined to an operand, with the right operands
folded. -/
def joined (left : Tree K α) (ps : List (Token K × Tree K α)) : Tree K α :=
  ps.foldl (fun left p => l.join left p.1 (l.fold p.2)) left

theorem joined_append (left : Tree K α) (ps qs : List (Token K × Tree K α)) :
    l.joined left (ps ++ qs) = l.joined (l.joined left ps) qs :=
  List.foldl_append

theorem chain_flat (left : Tree K α) (ps : List (Token K × Tree K α)) :
    l.chain left ((flat ps).map l.fold) = l.joined left ps := by
  induction ps generalizing left with
  | nil => rfl
  | cons p ps ih => exact ih _

theorem isDiscarded_joined {left : Tree K α} (h : left.isDiscarded = false)
    (ps : List (Token K × Tree K α)) :
    (l.joined left ps).isDiscarded = false := by
  induction ps generalizing left with
  | nil => exact h
  | cons p ps ih =>
    have hjoin : (l.join left p.1 (l.fold p.2)).isDiscarded = false := by
      unfold join
      split
      · rfl
      · exact h
    exact ih hjoin

/-- **A level is folded to its operators**, joined to the left. -/
theorem fold_levelTree [TokenKind K] {i : Nat} (hi : i < l.depth) {u : Tree K α}
    (hu : u.isDiscarded = false) (ps : List (Token K × Tree K α)) :
    l.fold (l.levelTree i u ps) = l.joined (l.fold u) ps := by
  have hhead : l.level i ≠ l.head.name := l.level_ne_head (Nat.le_of_lt hi)
  have hdepth : l.level i ≠ l.level l.depth := fun h => by
    have hidx := congrArg l.levels.idxOf h
    rw [l.idxOf_level (Nat.le_of_lt hi), l.idxOf_level (Nat.le_refl _)] at hidx
    omega
  have hmem : l.level i ∈ l.levels := l.level_mem (Nat.le_of_lt hi)
  have hmark : (l.joined (l.fold u) ps).isDiscarded = false :=
    l.isDiscarded_joined ((l.isDiscarded_fold u).trans hu) ps
  have hfold : l.foldAll [u, clauseTree (.star (l.body i)) .many (flat ps)] =
      [l.fold u,
        clauseTree (.star (l.body i)) .many ((flat ps).map l.fold)] := by
    rw [foldAll, foldAll, foldAll, l.fold_clauseTree _ (by decide)]
  have hrefold : l.refold (.rule (l.level i) (l.levelRule i).callback)
      [l.fold u, clauseTree (.star (l.body i)) .many ((flat ps).map l.fold)] =
      (l.chain (l.fold u) ((flat ps).map l.fold)).setDiscarded false :=
    l.refold_level rfl hhead hdepth hmem
  rw [levelTree, ruleTree, fold, hfold]
  refine hrefold.trans ?_
  rw [l.chain_flat]
  exact Tree.setDiscarded_of_eq hmark

end Layering

end Descent
