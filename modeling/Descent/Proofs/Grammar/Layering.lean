import Descent.Proofs.Grammar.LeftRecursion
import Descent.Proofs.Grammar.Operators
import Mathlib.Data.Finset.Card
import Mathlib.Data.Fintype.EquivFin
import Mathlib.Data.List.Dedup
import Mathlib.Data.List.Sort
import Mathlib.Data.Set.Finite.Basic

/-!
# Operators as layers of repetitions

Operators between operands that all group to the left can be written without
operators: one level for each precedence, from the loosest to the tightest, each
of which is a repetition over the next, and the operands below the last
(`Layering.grammar`).

A `Layering` says which head is to be layered and which names its levels get; any
head that has such operators only can be layered (`Layering.exists_of_head`). The
names are fresh, so the rest of the grammar is as it was. Layering makes no name
left-recursive (`Layering.isLeftRecursive_grammar`): a level begins with the next,
and the last with what the head began with.
-/

namespace Descent

variable {K α : Type}

/-! ## What is leftmost in a clause -/

namespace Clause

variable {p q : String → Bool} {x : String}

mutual

/-- What is leftmost in a clause is referred to in it. -/
theorem leftmost_subset : (c : Clause K) → c.leftmost p ⊆ c.references
  | token .. => List.Subset.refl _
  | reference .. => List.Subset.refl _
  | group members => leftmostSeq_subset members
  | choice branches => leftmostAny_subset branches
  | optional body | star body | plus body => leftmost_subset body

/-- What is leftmost in a sequence is referred to in it. -/
theorem leftmostSeq_subset :
    (cs : List (Clause K)) → leftmostSeq p cs ⊆ referencesAll cs
  | [] => List.Subset.refl _
  | c :: cs => by
    rw [leftmostSeq, referencesAll]
    refine List.append_subset.mpr
      ⟨List.subset_append_of_subset_left _ (leftmost_subset c), ?_⟩
    split
    · exact List.subset_append_of_subset_right _ (leftmostSeq_subset cs)
    · exact List.nil_subset _

/-- What is leftmost in some branches is referred to in them. -/
theorem leftmostAny_subset :
    (cs : List (Clause K)) → leftmostAny p cs ⊆ referencesAll cs
  | [] => List.Subset.refl _
  | c :: cs => by
    rw [leftmostAny, referencesAll]
    exact List.append_subset.mpr
      ⟨List.subset_append_of_subset_left _ (leftmost_subset c),
        List.subset_append_of_subset_right _ (leftmostAny_subset cs)⟩

end

mutual

/-- **What is leftmost in a clause stays so** if more of the names in it are
nullable. -/
theorem leftmost_mono :
    (c : Clause K) → (∀ x ∈ c.references, p x = true → q x = true) →
      c.leftmost p ⊆ c.leftmost q
  | token .., _ => List.Subset.refl _
  | reference .., _ => List.Subset.refl _
  | group members, h => leftmostSeq_mono members h
  | choice branches, h => leftmostAny_mono branches h
  | optional body, h | star body, h | plus body, h => leftmost_mono body h

/-- What is leftmost in a sequence stays so. -/
theorem leftmostSeq_mono :
    (cs : List (Clause K)) →
      (∀ x ∈ referencesAll cs, p x = true → q x = true) →
      leftmostSeq p cs ⊆ leftmostSeq q cs
  | [], _ => List.Subset.refl _
  | c :: cs, h => by
    rw [referencesAll, List.forall_mem_append] at h
    rw [leftmostSeq, leftmostSeq]
    refine List.append_subset.mpr
      ⟨List.subset_append_of_subset_left _ (leftmost_mono c h.1), ?_⟩
    split
    · next hp =>
      rw [if_pos (isNullable_mono c h.1 hp)]
      exact List.subset_append_of_subset_right _ (leftmostSeq_mono cs h.2)
    · exact List.nil_subset _

/-- What is leftmost in some branches stays so. -/
theorem leftmostAny_mono :
    (cs : List (Clause K)) →
      (∀ x ∈ referencesAll cs, p x = true → q x = true) →
      leftmostAny p cs ⊆ leftmostAny q cs
  | [], _ => List.Subset.refl _
  | c :: cs, h => by
    rw [referencesAll, List.forall_mem_append] at h
    rw [leftmostAny, leftmostAny]
    exact List.append_subset.mpr
      ⟨List.subset_append_of_subset_left _ (leftmost_mono c h.1),
        List.subset_append_of_subset_right _ (leftmostAny_mono cs h.2)⟩

end

end Clause

/-! ## Levels -/

/-- **The precedences of a head**, each once, from the loosest to the tightest. -/
def NonTerminal.precedences (n : NonTerminal K α) : List Nat :=
  (n.operators.map (·.precedence)).dedup.insertionSort (· ≤ ·)

/-- **A head that can be layered**, with names for its levels: its operators all
stand between operands, group to the left and are of kinds of their own. -/
structure Layering (g : Grammar K α) where
  /-- The head. -/
  head : NonTerminal K α
  /-- The head is declared. -/
  get?_head : g.get? head.name = some head
  /-- There are operators. -/
  isHead : head.isHead = true
  /-- All operators stand between operands and group to the left. -/
  infixOp : ∀ op ∈ head.operators, ∃ p, op.operation = .infixOp p .left
  /-- No two operators are of one kind. -/
  kinds_nodup : (head.operators.map (·.kind)).Nodup
  /-- The names of the levels, from the loosest to the operands. -/
  levels : List String
  /-- No two levels have one name. -/
  levels_nodup : levels.Nodup
  /-- There is a level for each precedence, and one for the operands. -/
  length_levels : levels.length = head.precedences.length + 1
  /-- The names of the levels are fresh: nothing is declared for them, and nothing
  refers to them. -/
  fresh : ∀ x ∈ levels, g.contains x = false ∧
    ∀ n ∈ g.nonTerminals, x ∉ n.references
  /-- What is made of a level. -/
  callback : Callback K α

namespace Layering

variable {g : Grammar K α} (l : Layering g)

/-- The number of precedences, which is the place of the operands among the
levels. -/
def depth : Nat := l.head.precedences.length

/-- The name of the level at a place. -/
def level (i : Nat) : String := l.levels.getD i ""

/-- The kinds of the operators of a level. -/
def kinds (i : Nat) : List K :=
  (l.head.operators.filter fun op =>
    l.head.precedences[i]? == some op.precedence).map (·.kind)

/-- **What is repeated at a level**: an operator of the level and an operand of
the next. -/
def body (i : Nat) : Clause K :=
  .group [.choice ((l.kinds i).map (.token · false)),
    .reference (l.level (i + 1)) false]

/-- The rule of a level of operators. -/
def levelRule (i : Nat) : Rule K α :=
  .ofClauses (l.level i)
    [.reference (l.level (i + 1)) false, .star (l.body i)] l.callback

/-- **The non-terminal of a level**: a repetition over the next one, or the
operands. -/
def nonTerminal (i : Nat) : NonTerminal K α :=
  ⟨l.level i, if i < l.depth then [l.levelRule i] else l.head.rules, []⟩

/-- **What the head becomes**: a single reference to the first level. -/
def top : NonTerminal K α :=
  ⟨l.head.name,
    [.ofClauses l.head.name [.reference (l.level 0) false] l.callback], []⟩

/-- A non-terminal of the grammar, or what the head becomes. -/
def replace (n : NonTerminal K α) : NonTerminal K α :=
  if n.name = l.head.name then l.top else n

theorem name_replace (n : NonTerminal K α) : (l.replace n).name = n.name := by
  unfold replace
  split
  · next h => exact h.symm
  · rfl

theorem length_levels_eq : l.levels.length = l.depth + 1 := l.length_levels

theorem level_eq_getElem {i : Nat} (hi : i < l.levels.length) :
    l.level i = l.levels[i] := by
  rw [level, List.getD_eq_getElem?_getD, List.getElem?_eq_getElem hi,
    Option.getD_some]

theorem level_mem {i : Nat} (hi : i ≤ l.depth) : l.level i ∈ l.levels := by
  have hlen := l.length_levels_eq
  rw [l.level_eq_getElem (by omega)]
  exact List.getElem_mem _

theorem map_level : (List.range (l.depth + 1)).map l.level = l.levels := by
  have hlen := l.length_levels_eq
  refine List.ext_getElem (by simp [hlen]) fun i hi hi' => ?_
  rw [List.getElem_map, List.getElem_range, l.level_eq_getElem hi']

theorem idxOf_level {i : Nat} (hi : i ≤ l.depth) :
    l.levels.idxOf (l.level i) = i := by
  have hlen := l.length_levels_eq
  rw [l.level_eq_getElem (by omega)]
  exact l.levels_nodup.idxOf_getElem i (by omega)

/-- Declared names are no levels. -/
theorem not_mem_levels {n : NonTerminal K α} (hn : n ∈ g.nonTerminals) :
    n.name ∉ l.levels := by
  intro h
  have hcontains : g.contains n.name = true :=
    Grammar.contains_iff_mem_names.mpr (List.mem_map_of_mem hn)
  cases (l.fresh _ h).1.symm.trans hcontains

theorem head_mem : l.head ∈ g.nonTerminals :=
  List.mem_of_find?_eq_some l.get?_head

/-- **The layered grammar**: the head refers to the first level, and the levels
stand at the end. -/
def grammar : Grammar K α where
  start := g.start
  nonTerminals :=
    g.nonTerminals.map l.replace ++ (List.range (l.depth + 1)).map l.nonTerminal
  names_nodup := by
    have hnames : (g.nonTerminals.map l.replace).map (·.name) = g.names := by
      rw [List.map_map]
      exact List.map_congr_left fun n _ => l.name_replace n
    have hlevels : ((List.range (l.depth + 1)).map l.nonTerminal).map (·.name) =
        l.levels := by
      rw [List.map_map]
      exact l.map_level
    rw [List.map_append, hnames, hlevels]
    refine List.nodup_append.mpr ⟨g.names_nodup, l.levels_nodup, ?_⟩
    rintro x hx y hy rfl
    obtain ⟨n, hn, rfl⟩ := List.mem_map.mp hx
    exact l.not_mem_levels hn hy

/-- **Every head whose operators allow it can be layered**: there are fresh names
enough. -/
theorem exists_of_head {head : NonTerminal K α}
    (hget : g.get? head.name = some head) (hhead : head.isHead = true)
    (hleft : ∀ op ∈ head.operators, ∃ p, op.operation = .infixOp p .left)
    (hkinds : (head.operators.map (·.kind)).Nodup) :
    ∃ l : Layering g, l.head = head := by
  let used := (g.names ++ g.nonTerminals.flatMap (·.references)).toFinset
  obtain ⟨fresh, hfresh, hcard⟩ :=
    used.finite_toSet.infinite_compl.exists_subset_card_eq
      (head.precedences.length + 1)
  have hunused (x : String) (hx : x ∈ fresh.toList) :
      x ∉ g.names ∧ x ∉ g.nonTerminals.flatMap (·.references) := by
    have hnot : x ∉ used := hfresh (Finset.mem_toList.mp hx)
    simpa only [used, List.mem_toFinset, List.mem_append, not_or] using hnot
  obtain ⟨op, _⟩ : ∃ op, op ∈ head.operators :=
    List.exists_mem_of_ne_nil _ fun h => by simp [NonTerminal.isHead, h] at hhead
  refine ⟨⟨head, hget, hhead, hleft, hkinds, fresh.toList,
    fresh.nodup_toList, by rw [Finset.length_toList, hcard], fun x hx => ?_,
    op.callback⟩, rfl⟩
  obtain ⟨hname, hrefs⟩ := hunused x hx
  refine ⟨Bool.eq_false_iff.mpr fun h => ?_, fun n hn hmem => ?_⟩
  · exact hname (Grammar.contains_iff_mem_names.mp h)
  · exact hrefs (List.mem_flatMap_of_mem hn hmem)

/-! ## What the layered grammar declares -/

/-- What is declared besides the head stays declared. -/
theorem get?_grammar {x : String} {n : NonTerminal K α} (hx : g.get? x = some n)
    (hhead : x ≠ l.head.name) : l.grammar.get? x = some n := by
  have hname := Grammar.name_of_get? hx
  subst hname
  have hmem : l.replace n ∈ l.grammar.nonTerminals :=
    List.mem_append_left _ (List.mem_map_of_mem (List.mem_of_find?_eq_some hx))
  rw [replace, if_neg hhead] at hmem
  exact Grammar.get?_of_mem hmem

/-- The head refers to the first level. -/
theorem get?_grammar_head : l.grammar.get? l.head.name = some l.top := by
  have hmem : l.replace l.head ∈ l.grammar.nonTerminals :=
    List.mem_append_left _ (List.mem_map_of_mem l.head_mem)
  rw [replace, if_pos rfl] at hmem
  exact Grammar.get?_of_mem hmem

/-- The levels are declared. -/
theorem get?_grammar_level {i : Nat} (hi : i ≤ l.depth) :
    l.grammar.get? (l.level i) = some (l.nonTerminal i) := by
  have hmem : l.nonTerminal i ∈ l.grammar.nonTerminals :=
    List.mem_append_right _
      (List.mem_map_of_mem (List.mem_range.mpr (Nat.lt_succ_of_le hi)))
  exact Grammar.get?_of_mem hmem

/-- Every non-terminal of the layered grammar is one of the grammar that is not
the head, or the head, or a level. -/
theorem cases_of_mem {n : NonTerminal K α} (h : n ∈ l.grammar.nonTerminals) :
    (n ∈ g.nonTerminals ∧ n.name ≠ l.head.name) ∨ n = l.top ∨
      ∃ i ≤ l.depth, n = l.nonTerminal i := by
  rcases List.mem_append.mp h with h | h
  · obtain ⟨n, hn, rfl⟩ := List.mem_map.mp h
    unfold replace
    split
    · exact .inr (.inl rfl)
    · next hname => exact .inl ⟨hn, hname⟩
  · obtain ⟨i, hi, rfl⟩ := List.mem_map.mp h
    exact .inr (.inr ⟨i, Nat.le_of_lt_succ (List.mem_range.mp hi), rfl⟩)

/-- What is not declared and no level stays undeclared. -/
theorem get?_grammar_eq_none {x : String} (hx : g.get? x = none)
    (hlevel : x ∉ l.levels) : l.grammar.get? x = none := by
  refine Option.eq_none_iff_forall_ne_some.mpr fun n hn => ?_
  have hmem := List.mem_of_find?_eq_some hn
  obtain rfl := Grammar.name_of_get? hn
  rcases l.cases_of_mem hmem with ⟨hmem, _⟩ | rfl | ⟨i, hi, rfl⟩
  · cases hx.symm.trans (Grammar.get?_of_mem hmem)
  · cases hx.symm.trans l.get?_head
  · exact hlevel (l.level_mem hi)

/-! ## The operators of a level -/

/-- **A level is where a precedence begins**: its operators and those of the levels
after it are those that bind at least as tightly. -/
def IsFrom (least i : Nat) : Prop :=
  ∀ j p, l.head.precedences[j]? = some p → (least ≤ p ↔ i ≤ j)

theorem mem_precedences {n : NonTerminal K α} {p : Nat} :
    p ∈ n.precedences ↔ ∃ op ∈ n.operators, op.precedence = p := by
  rw [NonTerminal.precedences, List.mem_insertionSort, List.mem_dedup,
    List.mem_map]

/-- The precedences are in order, and no two are the same. -/
theorem pairwise_precedences (n : NonTerminal K α) :
    n.precedences.Pairwise (· < ·) := by
  have hle : n.precedences.Pairwise (· ≤ ·) := List.pairwise_insertionSort _ _
  have hne : n.precedences.Pairwise (· ≠ ·) :=
    (List.perm_insertionSort _ _).nodup_iff.mpr (List.nodup_dedup _)
  exact hle.imp₂ (fun _ _ => Nat.lt_of_le_of_ne) hne

/-- Tighter precedences come later. -/
theorem lt_iff_of_getElem? {i j p q : Nat} (hp : l.head.precedences[i]? = some p)
    (hq : l.head.precedences[j]? = some q) : p < q ↔ i < j := by
  obtain ⟨hi, rfl⟩ := List.getElem?_eq_some_iff.mp hp
  obtain ⟨hj, rfl⟩ := List.getElem?_eq_some_iff.mp hq
  have hlt := List.pairwise_iff_getElem.mp (pairwise_precedences l.head)
  rcases Nat.lt_trichotomy i j with h | rfl | h
  · exact iff_of_true (hlt i j hi hj h) h
  · exact iff_of_false (Nat.lt_irrefl _) (Nat.lt_irrefl _)
  · exact iff_of_false (Nat.lt_asymm (hlt j i hj hi h)) (Nat.lt_asymm h)

/-- Every precedence begins at the first level. -/
theorem isFrom_zero : l.IsFrom 0 0 :=
  fun _ _ _ => iff_of_true (Nat.zero_le _) (Nat.zero_le _)

/-- What binds more tightly than an operator begins at the level after that of
the operator. -/
theorem isFrom_succ {j p : Nat} (hp : l.head.precedences[j]? = some p) :
    l.IsFrom (p + 1) (j + 1) :=
  fun _ _ hq => l.lt_iff_of_getElem? hp hq

section Operators

variable [DecidableEq K] {op : Operator K α} {k : K}

omit [DecidableEq K] in
/-- Every operator has a level. -/
theorem exists_level (h : op ∈ l.head.operators) :
    ∃ j < l.depth, l.head.precedences[j]? = some op.precedence := by
  obtain ⟨j, hj, hp⟩ := List.getElem_of_mem (mem_precedences.mpr ⟨op, h, rfl⟩)
  exact ⟨j, hj, by rw [List.getElem?_eq_getElem hj, hp]⟩

/-- No operator stands before an operand. -/
theorem leadingOperator?_head (k : K) : l.head.leadingOperator? k = none := by
  refine Option.eq_none_iff_forall_ne_some.mpr fun op hop => ?_
  obtain ⟨hmem, _, p, hp⟩ := NonTerminal.of_leadingOperator? hop
  obtain ⟨q, hq⟩ := l.infixOp op hmem
  cases hp.symm.trans hq

/-- The operator of a kind is the one that is declared. -/
theorem trailingOperator?_head (h : op ∈ l.head.operators) :
    l.head.trailingOperator? op.kind = some op := by
  obtain ⟨p, hp⟩ := l.infixOp op h
  have hsome : (l.head.trailingOperator? op.kind).isSome = true := by
    rw [NonTerminal.trailingOperator?, List.find?_isSome]
    exact ⟨op, h, by simp [hp, Operation.isTrailing, Operation.affix]⟩
  obtain ⟨o, ho⟩ := Option.isSome_iff_exists.mp hsome
  obtain ⟨hmem, hkind, _⟩ := NonTerminal.of_trailingOperator? ho
  rw [ho, List.inj_on_of_nodup_map l.kinds_nodup hmem h hkind]

/-- **The kinds of a level** are those of the operators of its precedence. -/
theorem mem_kinds {j : Nat} :
    k ∈ l.kinds j ↔ ∃ op, l.head.trailingOperator? k = some op ∧
      l.head.precedences[j]? = some op.precedence := by
  simp only [kinds, List.mem_map, List.mem_filter, beq_iff_eq]
  constructor
  · rintro ⟨op, ⟨hop, hp⟩, rfl⟩
    exact ⟨op, l.trailingOperator?_head hop, hp⟩
  · rintro ⟨op, hop, hp⟩
    obtain ⟨hmem, hkind, _⟩ := NonTerminal.of_trailingOperator? hop
    exact ⟨op, ⟨hmem, hp⟩, hkind⟩

/-- There are no operators among the operands. -/
theorem lt_depth_of_mem_kinds {j : Nat} (h : k ∈ l.kinds j) : j < l.depth := by
  obtain ⟨op, _, hp⟩ := l.mem_kinds.mp h
  exact (List.getElem?_eq_some_iff.mp hp).1

/-- No operator is of two levels. -/
theorem eq_of_mem_kinds {i j : Nat} (hi : k ∈ l.kinds i) (hj : k ∈ l.kinds j) :
    i = j := by
  obtain ⟨op, hop, hp⟩ := l.mem_kinds.mp hi
  obtain ⟨op', hop', hp'⟩ := l.mem_kinds.mp hj
  obtain rfl := Option.some.inj (hop.symm.trans hop')
  have hij := l.lt_iff_of_getElem? hp hp'
  have hji := l.lt_iff_of_getElem? hp' hp
  omega

end Operators

/-! ## Layering makes no name left-recursive -/

/-- What a level stands for: the head. Any other name stands for itself. -/
def origin (x : String) : String := if x ∈ l.levels then l.head.name else x

theorem origin_level {i : Nat} (hi : i ≤ l.depth) :
    l.origin (l.level i) = l.head.name :=
  if_pos (l.level_mem hi)

theorem origin_of_mem {n : NonTerminal K α} (hn : n ∈ g.nonTerminals) :
    l.origin n.name = n.name :=
  if_neg (l.not_mem_levels hn)

theorem origin_of_reference {n : NonTerminal K α} (hn : n ∈ g.nonTerminals)
    {x : String} (hx : x ∈ n.references) : l.origin x = x :=
  if_neg fun h => (l.fresh x h).2 n hn hx

/-- **A name is nullable in the layered grammar only if what it stands for was
nullable.** -/
theorem origin_mem_nullable {x : String} (h : x ∈ l.grammar.nullable) :
    l.origin x ∈ g.nullable := by
  let P (x : String) : Prop := l.origin x ∈ g.nullable
  -- a non-terminal of the grammar refers to no level
  have hold {n : NonTerminal K α} (hn : n ∈ g.nonTerminals)
      (hnull : n.isNullable (fun x => decide (P x)) = true) :
      n.name ∈ g.nullable := by
    refine g.nullable_closed n hn (NonTerminal.isNullable_mono ?_ hnull)
    intro x hx hP
    have hP : l.origin x ∈ g.nullable := of_decide_eq_true hP
    rw [l.origin_of_reference hn hx] at hP
    exact List.contains_iff_mem.mpr hP
  refine Grammar.nullable_induction (P := P) (fun n hn hnull => ?_) h
  rcases l.cases_of_mem hn with ⟨hn, _⟩ | rfl | ⟨i, hi, rfl⟩
  · show l.origin n.name ∈ _
    rw [l.origin_of_mem hn]
    exact hold hn hnull
  · have hP : l.origin (l.level 0) ∈ g.nullable := by
      simpa [NonTerminal.isNullable, top, Rule.isNullable, Rule.ofClauses,
        Clause.allNullable, Clause.isNullable, P] using hnull
    show l.origin l.head.name ∈ _
    rwa [l.origin_of_mem l.head_mem, ← l.origin_level (Nat.zero_le _)]
  · show l.origin (l.level i) ∈ _
    rw [l.origin_level hi]
    by_cases hlt : i < l.depth
    · have hP : l.origin (l.level (i + 1)) ∈ g.nullable := by
        simpa [NonTerminal.isNullable, nonTerminal, hlt, levelRule,
          Rule.isNullable, Rule.ofClauses, Clause.allNullable, Clause.isNullable,
          P] using hnull
      rwa [l.origin_level hlt] at hP
    · refine hold l.head_mem ?_
      simpa [NonTerminal.isNullable, nonTerminal, hlt] using hnull

/-- The tokens of a choice of operators are not nullable and lead nowhere. -/
theorem leftmost_body (p : String → Bool) (i : Nat) : (l.body i).leftmost p = [] := by
  have hnull (ks : List K) :
      Clause.anyNullable p (ks.map (.token · false)) = false := by
    rw [Clause.anyNullable_eq_any]
    simp [Clause.isNullable]
  have hleft (ks : List K) :
      Clause.leftmostAny p (ks.map (.token · false)) = [] := by
    rw [Clause.leftmostAny_eq_flatMap]
    simp [Clause.leftmost]
  simp [body, Clause.leftmost, Clause.leftmostSeq, Clause.isNullable, hnull, hleft]

/-- **What can come first** in the layered grammar: the first level in the head,
in a level the next one, and in the operands and in any other non-terminal what
could come first there before. -/
theorem cases_of_leadsTo {x y : String} (h : l.grammar.LeadsTo x y) :
    (x ∉ l.levels ∧ y ∉ l.levels ∧ g.LeadsTo x y) ∨
      (x = l.head.name ∧ y = l.level 0) ∨
      (∃ i < l.depth, x = l.level i ∧ y = l.level (i + 1)) ∨
      (x = l.level l.depth ∧ y ∉ l.levels ∧ g.LeadsTo l.head.name y) := by
  obtain ⟨n, hx, rule, hrule, hy⟩ := h
  obtain rfl := Grammar.name_of_get? hx
  -- a rule of the grammar can only begin with what it could begin with before
  have hold {m : NonTerminal K α} (hm : m ∈ g.nonTerminals)
      (hrule : rule ∈ m.rules) :
      y ∉ l.levels ∧ y ∈ rule.leftmost g.nullable.contains := by
    have href (z : String) (hz : z ∈ rule.references) : z ∈ m.references :=
      m.mem_references hrule hz
    refine ⟨fun hlevel => (l.fresh y hlevel).2 m hm
      (href y (Clause.leftmostSeq_subset _ hy)), ?_⟩
    refine Clause.leftmostSeq_mono rule.clauses (fun z hz hnull => ?_) hy
    have hmem := l.origin_mem_nullable (List.contains_iff_mem.mp hnull)
    rw [l.origin_of_reference hm (href z hz)] at hmem
    exact List.contains_iff_mem.mpr hmem
  rcases l.cases_of_mem (List.mem_of_find?_eq_some hx) with
    ⟨hn, _⟩ | rfl | ⟨i, hi, rfl⟩
  · obtain ⟨hlevel, hy⟩ := hold hn hrule
    exact .inl ⟨l.not_mem_levels hn, hlevel, n, Grammar.get?_of_mem hn, rule,
      hrule, hy⟩
  · rw [top, List.mem_singleton] at hrule
    subst hrule
    have hy : y = l.level 0 := by
      simpa [Rule.leftmost, Rule.ofClauses, Clause.leftmostSeq,
        Clause.leftmost] using hy
    exact .inr (.inl ⟨rfl, hy⟩)
  · by_cases hlt : i < l.depth
    · rw [nonTerminal, if_pos hlt, List.mem_singleton] at hrule
      subst hrule
      have hy : y = l.level (i + 1) := by
        simpa [Rule.leftmost, levelRule, Rule.ofClauses, Clause.leftmostSeq,
          Clause.leftmost, leftmost_body] using hy
      exact .inr (.inr (.inl ⟨i, hlt, rfl, hy⟩))
    · rw [nonTerminal, if_neg hlt] at hrule
      obtain rfl : i = l.depth := by omega
      obtain ⟨hlevel, hy⟩ := hold l.head_mem hrule
      exact .inr (.inr (.inr ⟨rfl, hlevel, l.head, l.get?_head, rule, hrule, hy⟩))

/-- The rank of a name in the layered grammar: the levels stand between the head
and what it leads to. -/
def rank (ρ : g.Ranking) (x : String) : Nat :=
  if x ∈ l.levels then
    ρ.rank l.head.name * (l.depth + 2) - 1 - l.levels.idxOf x
  else ρ.rank x * (l.depth + 2)

theorem rank_level (ρ : g.Ranking) {i : Nat} (hi : i ≤ l.depth) :
    l.rank ρ (l.level i) = ρ.rank l.head.name * (l.depth + 2) - 1 - i := by
  rw [rank, if_pos (l.level_mem hi), l.idxOf_level hi]

theorem rank_of_not_mem (ρ : g.Ranking) {x : String} (hx : x ∉ l.levels) :
    l.rank ρ x = ρ.rank x * (l.depth + 2) := if_neg hx

/-- **What can come first is of lower rank.** -/
theorem rank_lt (ρ : g.Ranking) {x y : String} (h : l.grammar.LeadsTo x y) :
    l.rank ρ y < l.rank ρ x := by
  have hlow {x y : String} (h : g.LeadsTo x y) :
      ρ.rank y * (l.depth + 2) + (l.depth + 2) ≤ ρ.rank x * (l.depth + 2) := by
    obtain ⟨n, hx, rule, hrule, hy⟩ := h
    rw [← Nat.succ_mul]
    exact Nat.mul_le_mul_right _ (ρ.rank_lt hx rule hrule y hy)
  -- the head has room for its levels below it
  have hroom : l.depth + 2 ≤ ρ.rank l.head.name * (l.depth + 2) :=
    Nat.le_mul_of_pos_left _ (ρ.rank_pos l.get?_head)
  rcases l.cases_of_leadsTo h with ⟨hx, hy, hlead⟩ | ⟨rfl, rfl⟩ |
    ⟨i, hi, rfl, rfl⟩ | ⟨rfl, hy, hlead⟩
  · rw [l.rank_of_not_mem ρ hx, l.rank_of_not_mem ρ hy]
    have := hlow hlead
    omega
  · rw [l.rank_of_not_mem ρ (l.not_mem_levels l.head_mem),
      l.rank_level ρ (Nat.zero_le _)]
    omega
  · rw [l.rank_level ρ (Nat.le_of_lt hi), l.rank_level ρ hi]
    omega
  · rw [l.rank_level ρ (Nat.le_refl _), l.rank_of_not_mem ρ hy]
    have := hlow hlead
    omega

/-- **Layering makes no name left-recursive.** -/
theorem isLeftRecursive_grammar (h : g.isLeftRecursive = false) :
    l.grammar.isLeftRecursive = false := by
  obtain ⟨ρ⟩ := Grammar.nonempty_ranking h
  have hdown {x y : String} (h : Relation.TransGen l.grammar.LeadsTo x y) :
      l.rank ρ y < l.rank ρ x := by
    induction h with
    | single h => exact l.rank_lt ρ h
    | tail _ h ih => exact Nat.lt_trans (l.rank_lt ρ h) ih
  rw [Bool.eq_false_iff, ne_eq, Grammar.isLeftRecursive_iff_leadsTo]
  rintro ⟨x, hx⟩
  exact Nat.lt_irrefl _ (hdown hx)

end Layering

end Descent
