import Descent.Proofs.Matching.Grouping
import Descent.Proofs.Tree.Folding

/-!
# Climbing and layers of repetitions mean the same

Let the head of a grammar be layered. Whatever is meant in the grammar is meant in
the layered one, with trees that fold to those of the grammar
(`Layering.mirrors`); so a parse gives a tree in the one exactly if it does in the
other, and the tree in layers folds to the tree of operators
(`Layering.parse_layered`).

The operators that climbing goes through after an operand are a run in which every
operator binds tightly enough (`Layering.Steps`). Such a run can be cut where the
first operator stands that binds less tightly than a given one (`Steps.split`).
Cut at every level from the tightest to the loosest, it falls into the repetitions
of the levels (`Steps.level`).

An operator that finds no right operand ends climbing at every precedence. In the
layered grammar it is tried at every level that is open, and ends the repetition
of its own because the next level matches nothing after it (`Layering.Ends`).
-/

namespace Descent

variable {K α : Type} [DecidableEq K] [TokenKind K]

open Matcher (ruleTree operatorTree clauseTree)
open Grammar (Peg)

namespace Layering

variable {g : Grammar K α} {l : Layering g} {i j k : Nat} {t : Token K}
  {u r : Tree K α} {ts mid rest : List (Token K)}
  {ps : List (Token K × Tree K α)}

/-! ## What a level matches -/

/-- A repetition ends before tokens that are no operators of its level. -/
theorem iterations_stop (h : ∀ t, ts.head? = some t → t.kind ∉ l.kinds i) :
    l.grammar.Peg .ebnf (.iterations (l.body i)) ts (some ([], ts)) :=
  .stop (.group rfl (.stuck (.choice rfl (Peg.noTokens h))))

/-- A repetition ends at an operator that finds no right operand. -/
theorem iterations_noRight (ht : t.kind ∈ l.kinds i)
    (h : l.grammar.Peg .ebnf (.name (l.level (i + 1))) ts none) :
    l.grammar.Peg .ebnf (.iterations (l.body i)) (t :: ts)
      (some ([], t :: ts)) :=
  .stop (.group rfl (.stuckAfter (.choice rfl (Peg.tokens ht))
    (.stuck (.noReference h))))

/-- A reference that keeps its tree. -/
theorem peg_reference {x : String} (hu : u.isDiscarded = false)
    (h : l.grammar.Peg .ebnf (.name x) ts (some ([u], rest))) :
    l.grammar.Peg .ebnf (.clause (.reference x false)) ts
      (some ([u], rest)) := by
  have href := Peg.reference (d := false) h
  rwa [List.map_singleton, Tree.setDiscarded_of_eq hu] at href

/-- A repetition goes on with an operator of its level and a right operand. -/
theorem iterations_again (ht : t.kind ∈ l.kinds i) (hr : r.isDiscarded = false)
    (hright : l.grammar.Peg .ebnf (.name (l.level (i + 1))) ts (some ([r], mid)))
    (h : l.grammar.Peg .ebnf (.iterations (l.body i)) mid
      (some (flat ps, rest))) :
    l.grammar.Peg .ebnf (.iterations (l.body i)) (t :: ts)
      (some (flat ((t, r) :: ps), rest)) := by
  have hbody : l.grammar.Peg .ebnf (.clause (l.body i)) (t :: ts)
      (some ([.leaf t false, r], mid)) :=
    .group rfl (.andThen (.choice rfl (Peg.tokens ht))
      (.andThen (peg_reference hr hright) .done))
  have hlen := (hright.suffix _ rfl).length_le
  exact .again hbody (Nat.lt_succ_of_le hlen) h

/-- A level of operators is the next level and its repetition. -/
theorem peg_level (hi : i < l.depth) (hu : u.isDiscarded = false)
    (h : l.grammar.Peg .ebnf (.name (l.level (i + 1))) ts (some ([u], mid)))
    (hrepeat : l.grammar.Peg .ebnf (.iterations (l.body i)) mid
      (some (flat ps, rest))) :
    l.grammar.Peg .ebnf (.name (l.level i)) ts
      (some ([l.levelTree i u ps], rest)) := by
  have hrules : (l.nonTerminal i).rules = [l.levelRule i] := if_pos hi
  refine .plain (l.get?_grammar_level (Nat.le_of_lt hi)) rfl ?_
  exact .rule (hrules.trans (List.nil_append _).symm)
    (fun _ h => absurd h List.not_mem_nil)
    (.andThen (peg_reference hu h) (.andThen (.star rfl hrepeat) .done))

/-- A level of operators fails with the next one. -/
theorem peg_level_none (hi : i < l.depth)
    (h : l.grammar.Peg .ebnf (.name (l.level (i + 1))) ts none) :
    l.grammar.Peg .ebnf (.name (l.level i)) ts none := by
  have hrules : (l.nonTerminal i).rules = [l.levelRule i] := if_pos hi
  refine .plain (l.get?_grammar_level (Nat.le_of_lt hi)) rfl
    (.noRule fun rule hrule => ?_)
  rw [hrules, List.mem_singleton] at hrule
  subst hrule
  exact .stuck (.noReference h)

/-- Every level fails with that of the operands. -/
theorem peg_level_none_of_operands (hi : i ≤ l.depth)
    (h : l.grammar.Peg .ebnf (.name (l.level l.depth)) ts none) :
    l.grammar.Peg .ebnf (.name (l.level i)) ts none := by
  induction hi using Nat.decreasingInduction with
  | self => exact h
  | of_succ i hi ih => exact peg_level_none hi ih

/-! ## Runs of operators -/

/-- **No operator can go on** before some tokens that is of a level or of one
after it: if one stands first, the level after its own matches nothing there. -/
def Ends (l : Layering g) (i : Nat) (ts : List (Token K)) : Prop :=
  ∀ t rest j, ts = t :: rest → t.kind ∈ l.kinds j → i ≤ j →
    l.grammar.Peg .ebnf (.name (l.level (j + 1))) rest none

/-- **A run of operators** that are of a level or of one after it, each with a
right operand of the level after its own, up to where no other can go on. -/
inductive Steps (l : Layering g) (i : Nat) :
    List (Token K) → List (Token K × Tree K α) → List (Token K) → Prop
  /-- No operator can go on. -/
  | stop {ts : List (Token K)} : l.Ends i ts → Steps l i ts [] ts
  /-- An operator and its right operand, and the others. -/
  | step {t : Token K} {r : Tree K α} {j : Nat} {ts mid rest : List (Token K)}
      {ps : List (Token K × Tree K α)} :
      t.kind ∈ l.kinds j → i ≤ j → r.isDiscarded = false →
      l.grammar.Peg .ebnf (.name (l.level (j + 1))) ts (some ([r], mid)) →
      l.Ends (j + 1) mid → Steps l i mid ps rest →
      Steps l i (t :: ts) ((t, r) :: ps) rest

/-- What cannot go on at a level cannot at a later one. -/
theorem Ends.mono (h : l.Ends i ts) (hik : i ≤ k) : l.Ends k ts :=
  fun t rest j hts ht hkj => h t rest j hts ht (Nat.le_trans hik hkj)

/-- There are no operators among the operands. -/
theorem ends_depth (ts : List (Token K)) : l.Ends l.depth ts :=
  fun _ _ _ _ ht hj => absurd (l.lt_depth_of_mem_kinds ht) (Nat.not_lt.mpr hj)

/-- A run ends where no operator can go on. -/
theorem Steps.ends (h : l.Steps i ts ps rest) : l.Ends i rest := by
  induction h with
  | stop h => exact h
  | step _ _ _ _ _ _ ih => exact ih

/-- There is no run among the operands. -/
theorem Steps.of_depth (h : l.Steps l.depth ts ps rest) : ps = [] ∧ rest = ts := by
  cases h with
  | stop => exact ⟨rfl, rfl⟩
  | step ht hj =>
    exact absurd (l.lt_depth_of_mem_kinds ht) (Nat.not_lt.mpr hj)

/-- **A run is cut** before the first operator of an earlier level. -/
theorem Steps.split (h : l.Steps i ts ps rest) (hik : i ≤ k) :
    ∃ ps₁ ps₂ mid, ps = ps₁ ++ ps₂ ∧ l.Steps k ts ps₁ mid ∧
      l.Steps i mid ps₂ rest := by
  induction h with
  | @stop ts h => exact ⟨[], [], ts, rfl, .stop (h.mono hik), .stop h⟩
  | @step t r j ts mid rest ps ht hj hr hright hends hsteps ih =>
    by_cases hk : k ≤ j
    · obtain ⟨ps₁, ps₂, cut, rfl, hfirst, hsecond⟩ := ih
      exact ⟨(t, r) :: ps₁, ps₂, cut, rfl, .step ht hk hr hright hends hfirst,
        hsecond⟩
    · refine ⟨[], (t, r) :: ps, t :: ts, rfl, .stop ?_,
        .step ht hj hr hright hends hsteps⟩
      intro t' rest' j' hts ht' hk'
      cases hts
      exact absurd (l.eq_of_mem_kinds ht ht' ▸ hk') hk

/-- **A run is the repetition of a level** if no operator of a later level can go
on where it begins. -/
theorem Steps.iterations (h : l.Steps i ts ps rest) (hends : l.Ends (i + 1) ts) :
    l.grammar.Peg .ebnf (.iterations (l.body i)) ts (some (flat ps, rest)) := by
  induction h with
  | @stop ts h =>
    cases ts with
    | nil => exact iterations_stop fun _ ht => by cases ht
    | cons t rest =>
      by_cases ht : t.kind ∈ l.kinds i
      · exact iterations_noRight ht (h t rest i rfl ht (Nat.le_refl i))
      · refine iterations_stop fun t' ht' => ?_
        obtain rfl := Option.some.inj ht'
        exact ht
  | @step t r j ts mid rest ps ht hj hr hright hmid _ ih =>
    -- an operator of a later level would have gone on
    have hle : ¬ i + 1 ≤ j := fun hlt => by
      cases hright.unique (hends t ts j rfl ht hlt)
    obtain rfl : j = i := by omega
    exact iterations_again ht hr hright (ih hmid)

/-- **A run after an operand is a level**: cut at every level from the tightest
to the loosest, it falls into the repetitions of the levels. -/
theorem Steps.level {w : Tree K α} {front : List (Token K)} (hi : i ≤ l.depth)
    (hw : w.isDiscarded = false)
    (hoperand : l.grammar.Peg .ebnf (.name (l.level l.depth)) front
      (some ([w], ts)))
    (h : l.Steps i ts ps rest) :
    ∃ v, v.isDiscarded = false ∧ l.fold v = l.joined (l.fold w) ps ∧
      l.grammar.Peg .ebnf (.name (l.level i)) front (some ([v], rest)) := by
  induction hi using Nat.decreasingInduction generalizing ps rest with
  | self =>
    obtain ⟨rfl, rfl⟩ := h.of_depth
    exact ⟨w, hw, rfl, hoperand⟩
  | of_succ i hi ih =>
    obtain ⟨ps₁, ps₂, mid, rfl, hfirst, hsecond⟩ := h.split (Nat.le_succ i)
    obtain ⟨v, hv, hfold, hnext⟩ := ih hfirst
    refine ⟨l.levelTree i v ps₂, rfl, ?_,
      peg_level hi hv hnext (hsecond.iterations hfirst.ends)⟩
    rw [l.fold_levelTree hi hv, hfold, joined_append]

/-! ## What the layered grammar shows -/

/-- **The layered grammar shows the meaning of a goal**: it fails with it, or
gives trees that fold to its trees and leaves the same tokens. -/
def Shows (l : Layering g) (goal : Goal K α) (ts : List (Token K)) :
    Option (List (Tree K α) × List (Token K)) → Prop
  | none => l.grammar.Peg .ebnf goal ts none
  | some (us, rest) =>
    ∃ us', l.grammar.Peg .ebnf goal ts (some (us', rest)) ∧ us'.map l.fold = us

/-- **A level shows the meaning of an expression** of the head: it fails with it,
or gives one tree that folds to its tree and ends where no operator of the level
can go on. -/
def ShowsLevel (l : Layering g) (i : Nat) (ts : List (Token K)) :
    Option (List (Tree K α) × List (Token K)) → Prop
  | none => l.grammar.Peg .ebnf (.name (l.level i)) ts none
  | some (us, rest) =>
    ∃ u, u.isDiscarded = false ∧ us = [l.fold u] ∧
      l.grammar.Peg .ebnf (.name (l.level i)) ts (some ([u], rest)) ∧
      l.Ends i rest

/-- **What the layered grammar shows of a goal** of the grammar. A goal of the
head is shown by levels: an expression by the level where its operators begin,
and what climbs from an operand by a run of operators. -/
def Mirrors (l : Layering g) (ts : List (Token K)) :
    Goal K α → Option (List (Tree K α) × List (Token K)) → Prop
  | .name x, a => x ∉ l.levels → l.Shows (.name x) ts a
  | .rules n rs, a =>
    (∀ rule ∈ rs, ∀ x ∈ rule.references, x ∉ l.levels) →
      ∀ n' : NonTerminal K α, (∀ rule us, l.fold (ruleTree n' rule us) =
        ruleTree n rule (us.map l.fold)) → l.Shows (.rules n' rs) ts a
  | .sequence cs, a =>
    (∀ x ∈ Clause.referencesAll cs, x ∉ l.levels) → l.Shows (.sequence cs) ts a
  | .choice bs, a =>
    (∀ x ∈ Clause.referencesAll bs, x ∉ l.levels) → l.Shows (.choice bs) ts a
  | .clause c, a =>
    (∀ x ∈ c.references, x ∉ l.levels) → l.Shows (.clause c) ts a
  | .iterations c, a =>
    (∀ x ∈ c.references, x ∉ l.levels) → l.Shows (.iterations c) ts a
  | .expression n least, a =>
    n ∈ g.nonTerminals →
      (n.name ≠ l.head.name → l.Shows (.expression n least) ts a) ∧
      (n = l.head → ∀ i ≤ l.depth, l.IsFrom least i → l.ShowsLevel i ts a)
  | .operand n, a =>
    n ∈ g.nonTerminals →
      (n.name ≠ l.head.name → l.Shows (.operand n) ts a) ∧
      (n = l.head → l.ShowsLevel l.depth ts a)
  | .climb n least left, a =>
    n ∈ g.nonTerminals →
      (n.name ≠ l.head.name →
        ∀ left', l.fold left' = left → l.Shows (.climb n least left') ts a) ∧
      (n = l.head → ∀ i, l.IsFrom least i → ∃ ps rest,
        a = some ([l.joined left ps], rest) ∧ l.Steps i ts ps rest)

section Shows

variable {goal goal' : Goal K α} {op : Operator K α} {least : Nat}
  {a : Option (List (Tree K α) × List (Token K))}

/-- What is shown of a goal is shown of any that comes to the same. -/
theorem Shows.imp {ts' : List (Token K)} (h : l.Shows goal ts a)
    (hgoal : ∀ b, l.grammar.Peg .ebnf goal ts b →
      l.grammar.Peg .ebnf goal' ts' b) : l.Shows goal' ts' a := by
  cases a with
  | none => exact hgoal none h
  | some answer =>
    obtain ⟨us, rest⟩ := answer
    obtain ⟨us', hus, hfold⟩ := h
    exact ⟨us', hgoal _ hus, hfold⟩

/-- The head shows what the first level shows. -/
theorem ShowsLevel.head (h : l.ShowsLevel 0 ts a) :
    l.Shows (.name l.head.name) ts a := by
  have hplain {b : Option (List (Tree K α) × List (Token K))} :
      l.grammar.Peg .ebnf (.rules l.top l.top.rules) ts b →
        l.grammar.Peg .ebnf (.name l.head.name) ts b :=
    .plain l.get?_grammar_head rfl
  cases a with
  | none =>
    refine hplain (.noRule fun rule hrule => ?_)
    obtain rfl := List.mem_singleton.mp hrule
    exact .stuck (.noReference h)
  | some answer =>
    obtain ⟨us, rest⟩ := answer
    obtain ⟨u, hu, rfl, hlevel, _⟩ := h
    refine ⟨_, hplain (.rule (List.nil_append _).symm
      (fun _ h => absurd h List.not_mem_nil)
      (.andThen (peg_reference hu hlevel) .done)), ?_⟩
    rw [List.map_singleton, List.append_nil, l.fold_ruleTree_top hu]

/-- The last level shows what its rules show. -/
theorem Shows.operands
    (h : l.Shows (.rules (l.nonTerminal l.depth) l.head.rules) ts a) :
    l.ShowsLevel l.depth ts a := by
  have hrules : (l.nonTerminal l.depth).rules = l.head.rules :=
    if_neg (Nat.lt_irrefl _)
  have hplain {b : Option (List (Tree K α) × List (Token K))}
      (h : l.grammar.Peg .ebnf
        (.rules (l.nonTerminal l.depth) l.head.rules) ts b) :
      l.grammar.Peg .ebnf (.name (l.level l.depth)) ts b :=
    .plain (l.get?_grammar_level (Nat.le_refl _)) rfl (hrules ▸ h)
  cases a with
  | none => exact hplain h
  | some answer =>
    obtain ⟨us, rest⟩ := answer
    obtain ⟨us', hus, rfl⟩ := h
    obtain ⟨rule, _, vs, rfl⟩ := hus.builds
    exact ⟨_, rfl, List.map_singleton, hplain hus, ends_depth rest⟩

/-- A level shows an operand with the run of operators after it. -/
theorem ShowsLevel.level {left : Tree K α} (hi : i ≤ l.depth)
    (h : l.ShowsLevel l.depth ts (some ([left], mid)))
    (hsteps : l.Steps i mid ps rest) :
    l.ShowsLevel i ts (some ([l.joined left ps], rest)) := by
  obtain ⟨w, hw, hleft, hoperand, _⟩ := h
  obtain rfl := (List.cons.inj hleft).1
  obtain ⟨v, hv, hfold, hlevel⟩ := hsteps.level hi hw hoperand
  exact ⟨v, hv, by rw [hfold], hlevel, hsteps.ends⟩

/-- No operator can go on if none that stands first binds tightly enough. -/
theorem ends_of_noOperator (hfrom : l.IsFrom least i)
    (h : ∀ t op, ts.head? = some t →
      l.head.trailingOperator? t.kind = some op → op.precedence < least) :
    l.Ends i ts := by
  rintro t rest j rfl ht hij
  obtain ⟨op, hop, hp⟩ := l.mem_kinds.mp ht
  exact absurd ((hfrom j _ hp).mpr hij) (Nat.not_le.mpr (h t op rfl hop))

omit [TokenKind K] in
/-- The right operand of an operator is of the level after its own. -/
theorem exists_level_of_trailing
    (hop : l.head.trailingOperator? t.kind = some op) :
    ∃ j < l.depth, t.kind ∈ l.kinds j ∧
      l.head.precedences[j]? = some op.precedence ∧
      l.IsFrom op.operation.threshold (j + 1) := by
  obtain ⟨hmem, _⟩ := NonTerminal.of_trailingOperator? hop
  obtain ⟨p, hp⟩ := l.infixOp op hmem
  obtain ⟨j, hj, hprec⟩ := l.exists_level hmem
  refine ⟨j, hj, l.mem_kinds.mpr ⟨op, hop, hprec⟩, hprec, ?_⟩
  have hthreshold : op.operation.threshold = op.precedence + 1 := by
    rw [Operator.precedence, hp]
    rfl
  rw [hthreshold]
  exact l.isFrom_succ hprec

/-- No operator can go on if the one that stands first finds no right operand. -/
theorem ends_of_noRight (hop : l.head.trailingOperator? t.kind = some op)
    (h : ∀ j ≤ l.depth, l.IsFrom op.operation.threshold j →
      l.ShowsLevel j ts none) : l.Ends i (t :: ts) := by
  obtain ⟨j, hj, ht, _, hfrom⟩ := exists_level_of_trailing hop
  intro t' rest j' hts ht' _
  cases hts
  obtain rfl := l.eq_of_mem_kinds ht ht'
  exact h (j + 1) hj hfrom

/-- An operator that binds tightly enough and finds a right operand begins a
run. -/
theorem exists_step {left right : Tree K α} (hfrom : l.IsFrom least i)
    (hop : l.head.trailingOperator? t.kind = some op)
    (hle : least ≤ op.precedence)
    (hright : ∀ j ≤ l.depth, l.IsFrom op.operation.threshold j →
      l.ShowsLevel j ts (some ([right], mid)))
    (hsteps : l.Steps i mid ps rest) :
    ∃ qs, l.Steps i (t :: ts) qs rest ∧ l.joined left qs =
      l.joined (operatorTree l.head op [left, .leaf t false, right]) ps := by
  obtain ⟨j, hj, ht, hp, hnext⟩ := exists_level_of_trailing hop
  obtain ⟨r, hr, heq, hlevel, hends⟩ := hright (j + 1) hj hnext
  obtain rfl := (List.cons.inj heq).1
  have hij : i ≤ j := (hfrom j _ hp).mp hle
  have hjoin : l.join left t (l.fold r) =
      operatorTree l.head op [left, .leaf t false, l.fold r] := by
    rw [join, hop]
  refine ⟨(t, r) :: ps, .step ht hij hr hlevel hends hsteps, ?_⟩
  rw [← hjoin]
  rfl

end Shows

section Declared

omit [DecidableEq K] [TokenKind K]

/-- A non-terminal that bears the name of the head is the head. -/
theorem eq_head {n : NonTerminal K α} (hn : n ∈ g.nonTerminals)
    (hname : n.name = l.head.name) : n = l.head := by
  have hget := Grammar.get?_of_mem hn
  rw [hname, l.get?_head] at hget
  exact (Option.some.inj hget).symm

/-- What is declared refers to no level. -/
theorem not_mem_levels_of_rule {n : NonTerminal K α} (hn : n ∈ g.nonTerminals) :
    ∀ rule ∈ n.rules, ∀ x ∈ rule.references, x ∉ l.levels :=
  fun _ hrule x hx hlevel =>
    (l.fresh x hlevel).2 n hn (n.mem_references hrule hx)

end Declared

/-- **What a goal means, the layered grammar shows.** -/
theorem mirrors {goal : Goal K α}
    {a : Option (List (Tree K α) × List (Token K))}
    (h : g.Peg .ebnf goal ts a) : l.Mirrors ts goal a := by
  -- any goal but those of the head is shown by itself, with references that are
  -- no levels; the goals of the head are shown by levels
  induction h with
  | undeclared hx => exact fun hlevel => .undeclared (l.get?_grammar_eq_none hx hlevel)
  | @head x n ts a hx hh _ ih =>
    intro _
    have hmem := List.mem_of_find?_eq_some hx
    obtain rfl := Grammar.name_of_get? hx
    by_cases hhead : n.name = l.head.name
    · rw [hhead]
      exact ((ih hmem).2 (eq_head hmem hhead) 0 (Nat.zero_le _) l.isFrom_zero).head
    · exact ((ih hmem).1 hhead).imp fun _ => .head (l.get?_grammar hx hhead) hh
  | @plain x n ts a hx hh _ ih =>
    intro _
    have hmem := List.mem_of_find?_eq_some hx
    obtain rfl := Grammar.name_of_get? hx
    have hhead : n.name ≠ l.head.name := fun hname => by
      cases hh.symm.trans (eq_head hmem hname ▸ l.isHead)
    have hrules :=
      ih (not_mem_levels_of_rule hmem) n (l.fold_ruleTree hmem hhead)
    exact hrules.imp fun _ => .plain (l.get?_grammar hx hhead) hh
  | rule heq _ _ ihbefore ih =>
    intro hrefs n' hfold
    subst heq
    obtain ⟨us', hus, rfl⟩ :=
      ih (hrefs _ (List.mem_append_right _ List.mem_cons_self))
    refine ⟨[ruleTree n' _ us'], .rule rfl (fun e he => ?_) hus, ?_⟩
    · exact ihbefore e he (hrefs e (List.mem_append_left _ he))
    · rw [List.map_singleton, hfold]
  | noRule _ ih =>
    exact fun hrefs _ _ => .noRule fun rule hrule => ih rule hrule (hrefs rule hrule)
  | done => exact fun _ => ⟨[], .done, rfl⟩
  | andThen _ _ ih ih' =>
    intro hrefs
    obtain ⟨hc, hcs⟩ := List.forall_mem_append.mp hrefs
    obtain ⟨us', hus, rfl⟩ := ih hc
    obtain ⟨vs', hvs, rfl⟩ := ih' hcs
    exact ⟨us' ++ vs', .andThen hus hvs, List.map_append⟩
  | stuck _ ih => exact fun hrefs => .stuck (ih (List.forall_mem_append.mp hrefs).1)
  | stuckAfter _ _ ih ih' =>
    intro hrefs
    obtain ⟨hc, hcs⟩ := List.forall_mem_append.mp hrefs
    obtain ⟨us', hus, _⟩ := ih hc
    exact .stuckAfter hus (ih' hcs)
  | refused hs => cases hs
  | token hk => exact fun _ => ⟨_, .token hk, rfl⟩
  | noToken hk => exact fun _ => .noToken hk
  | reference _ ih =>
    intro hrefs
    obtain ⟨us', hus, rfl⟩ := ih (hrefs _ List.mem_cons_self)
    exact ⟨_, .reference hus, by simp⟩
  | noReference _ ih =>
    exact fun hrefs => .noReference (ih (hrefs _ List.mem_cons_self))
  | group hs _ ih => exact fun hrefs => (ih hrefs).imp fun _ => .group hs
  | choice hs _ ih => exact fun hrefs => (ih hrefs).imp fun _ => .choice hs
  | optional hs _ ih =>
    intro hrefs
    obtain ⟨us', hus, rfl⟩ := ih hrefs
    exact ⟨_, .optional hs hus,
      congrArg (List.cons · []) (l.fold_clauseTree _ (by decide) us')⟩
  | optionalNone hs _ ih =>
    exact fun hrefs => ⟨_, .optionalNone hs (ih hrefs),
      congrArg (List.cons · []) (l.fold_clauseTree _ (by decide) [])⟩
  | star hs _ ih =>
    intro hrefs
    obtain ⟨us', hus, rfl⟩ := ih hrefs
    exact ⟨_, .star hs hus,
      congrArg (List.cons · []) (l.fold_clauseTree _ (by decide) us')⟩
  | plus hs _ _ ih ih' =>
    intro hrefs
    obtain ⟨us', hus, rfl⟩ := ih hrefs
    obtain ⟨vs', hvs, rfl⟩ := ih' hrefs
    refine ⟨_, .plus hs hus hvs, ?_⟩
    rw [List.map_singleton, l.fold_clauseTree _ (by decide), List.map_append]
  | plusNone hs _ ih => exact fun hrefs => .plusNone hs (ih hrefs)
  | branch heq _ _ ihbefore ih =>
    intro hrefs
    subst heq
    rw [Clause.referencesAll_eq_flatMap] at hrefs
    have hbranch (b : Clause K) (hb : b ∈ _) (x : String) (hx : x ∈ b.references) :
        x ∉ l.levels := hrefs x (List.mem_flatMap_of_mem hb hx)
    obtain ⟨us', hus, hfold⟩ :=
      ih (hbranch _ (List.mem_append_right _ List.mem_cons_self))
    exact ⟨us', .branch rfl (fun e he =>
      ihbefore e he (hbranch e (List.mem_append_left _ he))) hus, hfold⟩
  | noBranch _ ih =>
    intro hrefs
    rw [Clause.referencesAll_eq_flatMap] at hrefs
    exact .noBranch fun b hb => ih b hb fun x hx =>
      hrefs x (List.mem_flatMap_of_mem hb hx)
  | stop _ ih => exact fun hrefs => ⟨[], .stop (ih hrefs), rfl⟩
  | still _ ih =>
    intro hrefs
    obtain ⟨us', hus, _⟩ := ih hrefs
    exact ⟨[], .still hus, rfl⟩
  | again _ hlt _ ih ih' =>
    intro hrefs
    obtain ⟨us', hus, rfl⟩ := ih hrefs
    obtain ⟨vs', hvs, rfl⟩ := ih' hrefs
    exact ⟨us' ++ vs', .again hus hlt hvs, List.map_append⟩
  | noOperand _ ih =>
    intro hn
    refine ⟨fun hname => .noOperand ((ih hn).1 hname), ?_⟩
    rintro rfl i hi _
    exact peg_level_none_of_operands hi ((ih hn).2 rfl)
  | @fromOperand n least ts mid left a _ _ ih ih' =>
    intro hn
    constructor
    · intro hname
      obtain ⟨us', hus, hfold⟩ := (ih hn).1 hname
      obtain ⟨left', rfl, hleft⟩ := List.map_eq_singleton_iff.mp hfold
      exact ((ih' hn).1 hname left' hleft).imp fun _ => .fromOperand hus
    · rintro rfl i hi hfrom
      obtain ⟨ps, rest, rfl, hsteps⟩ := (ih' hn).2 rfl i hfrom
      exact ((ih hn).2 rfl).level hi hsteps
  | @noOperator n least left ts hop =>
    intro hn
    constructor
    · rintro _ left' rfl
      exact ⟨[left'], .noOperator hop, rfl⟩
    · rintro rfl i hfrom
      exact ⟨[], ts, rfl, .stop (ends_of_noOperator hfrom hop)⟩
  | @noRight n least left t ts op p d hop hle hp _ ih =>
    intro hn
    constructor
    · rintro hname left' rfl
      exact ⟨[left'], .noRight hop hle hp ((ih hn).1 hname), rfl⟩
    · rintro rfl i _
      exact ⟨[], t :: ts, rfl, .stop (ends_of_noRight hop ((ih hn).2 rfl))⟩
  | @infixed n least left right t ts mid op p d a hop hle hp _ _ ih ih' =>
    intro hn
    constructor
    · rintro hname left' rfl
      obtain ⟨us', hus, hfold⟩ := (ih hn).1 hname
      obtain ⟨right', rfl, rfl⟩ := List.map_eq_singleton_iff.mp hfold
      have htree := l.fold_operatorTree n op [left', .leaf t false, right']
      exact ((ih' hn).1 hname _ htree).imp fun _ => .infixed hop hle hp hus
    · rintro rfl i hfrom
      obtain ⟨ps, rest, rfl, hsteps⟩ := (ih' hn).2 rfl i hfrom
      obtain ⟨qs, hqs, heq⟩ := exists_step hfrom hop hle ((ih hn).2 rfl) hsteps
      exact ⟨qs, rest, by rw [heq], hqs⟩
  | @postfixed n least left t ts op p a hop hle hp _ ih =>
    intro hn
    constructor
    · rintro hname left' rfl
      have htree := l.fold_operatorTree n op [left', .leaf t false]
      exact ((ih hn).1 hname _ htree).imp fun _ => .postfixed hop hle hp
    · rintro rfl
      obtain ⟨hmem, _⟩ := NonTerminal.of_trailingOperator? hop
      obtain ⟨q, hq⟩ := l.infixOp op hmem
      cases hp.symm.trans hq
  | @prefixed n t ts rest op right hop _ ih =>
    intro hn
    constructor
    · intro hname
      obtain ⟨us', hus, hfold⟩ := (ih hn).1 hname
      obtain ⟨right', rfl, rfl⟩ := List.map_eq_singleton_iff.mp hfold
      exact ⟨_, .prefixed hop hus,
        congrArg (List.cons · []) (l.fold_operatorTree n op _)⟩
    · rintro rfl
      cases hop.symm.trans (l.leadingOperator?_head t.kind)
  | @prefixNone n t ts op a hop _ _ ih ih' =>
    intro hn
    constructor
    · intro hname
      have hrules :=
        ih' (not_mem_levels_of_rule hn) n (l.fold_ruleTree hn hname)
      exact hrules.imp fun _ => .prefixNone hop ((ih hn).1 hname)
    · rintro rfl
      cases hop.symm.trans (l.leadingOperator?_head t.kind)
  | @noPrefix n ts a hop _ ih =>
    intro hn
    constructor
    · intro hname
      have hrules :=
        ih (not_mem_levels_of_rule hn) n (l.fold_ruleTree hn hname)
      exact hrules.imp fun _ => .noPrefix hop
    · rintro rfl
      exact (ih (not_mem_levels_of_rule hn) _ l.fold_ruleTree_operands).operands

/-! ## Parsing with layers -/

/-- **Operators and layers of repetitions parse the same.** Let a grammar without
left recursion have a head whose operators all stand between operands, group to
the left and are of kinds of their own, and let the head be layered. For all
tokens and every start that is no level, a parse gives a tree in the grammar
exactly if it does in the layered one, and the tree of the grammar is that of the
layered one with its levels folded to the left. -/
theorem parse_layered (l : Layering g) (h : g.isLeftRecursive = false)
    (tokens : TokenList K) {start : String} (hstart : start ∉ l.levels) :
    ((∃ tree, (Matcher.mk g .ebnf tokens).parse start = .ok (.ok tree)) ↔
      ∃ tree, (Matcher.mk l.grammar .ebnf tokens).parse start =
        .ok (.ok tree)) ∧
    ∀ tree, (Matcher.mk l.grammar .ebnf tokens).parse start = .ok (.ok tree) →
      (Matcher.mk g .ebnf tokens).parse start = .ok (.ok (l.fold tree)) := by
  let m : Matcher K α := ⟨g, .ebnf, tokens⟩
  let m' : Matcher K α := ⟨l.grammar, .ebnf, tokens⟩
  have h' : m'.grammar.isLeftRecursive = false := l.isLeftRecursive_grammar h
  obtain ⟨a, ha⟩ := m.exists_peg h (.name start) .start
  have hshows : l.Shows (.name start) tokens.toList a := mirrors ha hstart
  -- what the layered grammar gives folds to what the grammar gives
  have hfold (tree : Tree K α) (hparse : m'.parse start = .ok (.ok tree)) :
      m.parse start = .ok (.ok (l.fold tree)) := by
    have hpeg := (Matcher.parse_eq_tree_iff_peg h').mp hparse
    rw [Matcher.parse_eq_tree_iff_peg h]
    cases a with
    | none => cases hpeg.unique hshows
    | some answer =>
      obtain ⟨us, rest⟩ := answer
      obtain ⟨us', hus, rfl⟩ := hshows
      cases hpeg.unique hus
      exact ha
  refine ⟨⟨?_, fun ⟨tree, htree⟩ => ⟨_, hfold tree htree⟩⟩, hfold⟩
  rintro ⟨tree, htree⟩
  obtain rfl := ha.unique ((m.parse_eq_tree_iff_peg h).mp htree)
  obtain ⟨us', hus, hmap⟩ := hshows
  obtain ⟨tree', rfl, _⟩ := List.map_eq_singleton_iff.mp hmap
  exact ⟨tree', (Matcher.parse_eq_tree_iff_peg h').mpr hus⟩

end Layering

namespace Script

/-- Sums and products over numbers and sums in parentheses, with operators. -/
def calculator : Grammar ScriptKind Unit where
  start := "expr"
  nonTerminals :=
    [⟨"expr",
      [.ofClauses "number" [.token .num false] fun _ => (),
        .ofClauses "group"
          [.token .lparen true, .reference "expr" false, .token .rparen true]
          fun _ => ()],
      [.ofKind .plus (.infixOp 10 .left) fun _ => (),
        .ofKind .minus (.infixOp 10 .left) fun _ => (),
        .ofKind .star (.infixOp 20 .left) fun _ => ()]⟩]
  names_nodup := by decide

/-- Sums over products, and products over numbers and sums in parentheses. -/
def calculatorLayers : Layering calculator where
  head := calculator.nonTerminals[0]
  get?_head := rfl
  isHead := rfl
  infixOp := by simp [calculator, Operator.ofKind]
  kinds_nodup := by decide
  levels := ["sum", "product", "factor"]
  levels_nodup := by decide
  length_levels := by decide +kernel
  fresh := by decide +kernel
  callback _ := ()

/-- The tokens of `1 - (2 + 3) * 4 - 5`. -/
def differences : TokenList ScriptKind :=
  .withStop
    [.unplaced .num "1", .unplaced .minus "-", .unplaced .lparen "(",
      .unplaced .num "2", .unplaced .plus "+", .unplaced .num "3",
      .unplaced .rparen ")", .unplaced .star "*", .unplaced .num "4",
      .unplaced .minus "-", .unplaced .num "5"] .start

/-- The differences parse as repetitions, and so they do with operators. -/
theorem differences_layered :
    calculator.isLeftRecursive = false ∧ "expr" ∉ calculatorLayers.levels ∧
    ∃ tree, (Matcher.mk calculatorLayers.grammar .ebnf differences).parse
        "expr" = .ok (.ok tree) ∧
      (Matcher.mk calculator .ebnf differences).parse "expr" =
        .ok (.ok (calculatorLayers.fold tree)) := by
  have h : calculator.isLeftRecursive = false := by decide +kernel
  have hstart : "expr" ∉ calculatorLayers.levels := by decide
  have hparse : ∃ tree, (Matcher.mk calculatorLayers.grammar .ebnf
      differences).parse "expr" = .ok (.ok tree) := ⟨_, rfl⟩
  obtain ⟨tree, htree⟩ := hparse
  exact ⟨h, hstart, tree, htree,
    (calculatorLayers.parse_layered h differences hstart).2 tree htree⟩

end Script

end Descent
