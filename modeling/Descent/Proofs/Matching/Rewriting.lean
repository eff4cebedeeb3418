import Descent.Proofs.Grammar.Rewriting
import Descent.Proofs.Matching.Likeness
import Descent.Proofs.Tree.Map

/-!
# Rewriting a grammar without changing what it matches

Rewriting the clauses of a grammar changes nothing of how a matcher runs: its moves,
its expectations and its failures are the same, and the trees are the same up to what
is written on them. A `Matcher.Rewriting` says what is left of a label and a mark
where the rewriting is not to be seen.

A matcher over the rewritten grammar follows every attempt of a matcher over the
grammar (`Matcher.Attempt.rewritten`), so both parse alike up to what is left of
their trees (`Matcher.Rewriting.Relates.parse_eq`).
-/

namespace Descent

variable {K α : Type}

/-- **A way of rewriting clauses, with what is left of the trees.** -/
structure Matcher.Rewriting (K α : Type) extends Grammar.Rewriting K α where
  /-- What is left of a label. -/
  label : Label K α → Label K α
  /-- What is left of a mark is what it becomes, for good. -/
  mark_mark : ∀ d, mark (mark d) = mark d
  /-- The name of an option or a repetition is not left. -/
  label_bare : ∀ x y kind, kind = .many ∨ kind = .optional →
    label (.bare x kind) = label (.bare y kind)
  /-- Labels that are marked are left alike if they were before. -/
  label_discarded : ∀ (l l' : Label K α) (d : Bool), label l = label l' →
    label { l with discarded := d } = label { l' with discarded := mark d }

namespace Matcher.Rewriting

variable (R : Rewriting K α)

/-- What is left of a tree. -/
def tree : Tree K α → Tree K α := Tree.map R.label id R.mark

/-- What is left of some trees. -/
def trees : List (Tree K α) → List (Tree K α) := Tree.mapAll R.label id R.mark

/-- **What a goal becomes.** The operand that operators follow is of a run of its
own, so it is the same up to what is left of it. -/
def Rewrites : Goal K α → Goal K α → Prop
  | .name x, goal => goal = .name x
  | .rules head rs, goal => goal = .rules (R.head head) (rs.map R.rule)
  | .sequence cs, goal => goal = .sequence (R.sequence cs)
  | .clause c, goal => goal = .clause (R.clause c)
  | .choice bs, goal => goal = .choice (bs.map R.clause)
  | .iterations b, goal => goal = .iterations (R.clause b)
  | .expression head least, goal => goal = .expression (R.head head) least
  | .climb head least left, goal =>
    ∃ left', R.tree left' = R.tree left ∧
      goal = .climb (R.head head) least left'
  | .operand head, goal => goal = .operand (R.head head)

/-- **A matcher is one over the rewritten grammar**, in the same style and over the
same tokens. Groups are spliced in the style that knows them: the other refuses a
group, whatever its members are. -/
structure Relates (m m' : Matcher K α) : Prop where
  /-- The tokens are the same. -/
  tokens : m'.tokens = m.tokens
  /-- The style is the same. -/
  style : m'.style = m.style
  /-- The entries are rewritten. -/
  entries : m'.grammar.nonTerminals = m.grammar.nonTerminals.map R.head
  /-- Groups are spliced where they are known. -/
  splices : R.splices = true → m.style = .ebnf

/-! ## What is left of trees -/

variable {R} {t u left left' right right' : Tree K α} {ts us vs ws : List (Tree K α)}

theorem trees_eq_map (ts : List (Tree K α)) : R.trees ts = ts.map R.tree :=
  Tree.mapAll_eq_map _ _ _ ts

theorem trees_append (h : R.trees us = R.trees ts) (h' : R.trees ws = R.trees vs) :
    R.trees (us ++ ws) = R.trees (ts ++ vs) := by
  rw [trees, Tree.mapAll_append, Tree.mapAll_append]
  exact congrArg₂ (· ++ ·) h h'

theorem tree_node {l : Label K α} (h : R.trees us = R.trees ts) :
    R.tree (.node l us) = R.tree (.node l ts) :=
  congrArg (Tree.node _) h

theorem tree_setDiscarded (d : Bool) (h : R.tree u = R.tree t) :
    R.tree (u.setDiscarded (R.mark d)) = R.tree (t.setDiscarded d) := by
  cases t with
  | leaf =>
    cases u with
    | node => cases h
    | leaf =>
      obtain ⟨rfl, _⟩ := Tree.leaf.injEq .. ▸ h
      exact congrArg (Tree.leaf _) (R.mark_mark d)
  | node =>
    cases u with
    | leaf => cases h
    | node =>
      obtain ⟨hlabel, hchildren⟩ := Tree.node.injEq .. ▸ h
      exact congrArg₂ Tree.node (R.label_discarded _ _ d hlabel.symm).symm hchildren

theorem trees_map_setDiscarded (d : Bool) (h : R.trees us = R.trees ts) :
    R.trees (us.map (·.setDiscarded (R.mark d))) =
      R.trees (ts.map (·.setDiscarded d)) := by
  rw [trees_eq_map, trees_eq_map] at h
  rw [trees_eq_map, trees_eq_map, List.map_map, List.map_map]
  induction ts generalizing us with
  | nil =>
    rw [List.map_nil, List.map_eq_nil_iff] at h
    subst h
    rfl
  | cons t ts ih =>
    cases us with
    | nil => cases h
    | cons u us =>
      obtain ⟨hu, hus⟩ := List.cons.injEq .. ▸ h
      exact congrArg₂ List.cons (tree_setDiscarded d hu) (ih hus)

theorem trees_clauseTree [TokenKind K] {c c' : Clause K} {kind : NodeKind}
    (hkind : kind = .many ∨ kind = .optional) (h : R.trees us = R.trees ts) :
    R.trees [Matcher.clauseTree c' kind us] =
      R.trees [Matcher.clauseTree c kind ts] :=
  congrArg (fun t => [t]) (congrArg₂ Tree.node (R.label_bare _ _ kind hkind) h)

/-! ## What follows an attempt -/

variable {m m' : Matcher K α} {r r' : Run K} {goal : Goal K α}
  {o o' : Outcome K (List (Tree K α))} {c : Clause K} {cs : List (Clause K)}

/-- Outcomes stay the same up to what is left of trees. -/
theorem map_trees_map {f g : List (Tree K α) → List (Tree K α)}
    (h : o'.map R.trees = o.map R.trees)
    (hfg : ∀ ts us, R.trees us = R.trees ts → R.trees (g us) = R.trees (f ts)) :
    (o'.map g).map R.trees = (o.map f).map R.trees := by
  cases o with
  | exhausted | failed => cases o' <;> simp_all
  | matched ts r =>
    cases o' with
    | exhausted | failed => cases h
    | matched us r' =>
      obtain ⟨heq, rfl⟩ := Outcome.matched.injEq .. ▸ h
      exact congrArg (Outcome.matched · r') (hfg ts us heq)

variable [DecidableEq K] [TokenKind K]

/-- **An attempt follows another**: it ends with the same run, and with the same
trees up to what is left of them. -/
def Follows (R : Rewriting K α) (m' : Matcher K α) (goal : Goal K α) (r : Run K)
    (o : Outcome K (List (Tree K α))) : Prop :=
  ∃ o', m'.Attempt goal r o' ∧ o'.map R.trees = o.map R.trees

namespace Follows

theorem failed (h : R.Follows m' goal r (.failed r')) :
    m'.Attempt goal r (.failed r') := by
  obtain ⟨o', hatt, heq⟩ := h
  rw [Outcome.map_failed, Outcome.map_eq_failed_iff] at heq
  exact heq ▸ hatt

theorem matched (h : R.Follows m' goal r (.matched ts r')) :
    ∃ us, m'.Attempt goal r (.matched us r') ∧ R.trees us = R.trees ts := by
  obtain ⟨o', hatt, heq⟩ := h
  cases o' with
  | exhausted | failed => cases heq
  | matched us r'' =>
    rw [Outcome.map_matched, Outcome.map_matched, Outcome.matched.injEq] at heq
    exact ⟨us, heq.2 ▸ hatt, heq.1⟩

theorem singleton (h : R.Follows m' goal r (.matched [t] r')) :
    ∃ u, m'.Attempt goal r (.matched [u] r') ∧ R.tree u = R.tree t := by
  obtain ⟨us, hatt, heq⟩ := h.matched
  rw [trees_eq_map, trees_eq_map, List.map_singleton,
    List.map_eq_singleton_iff] at heq
  obtain ⟨u, rfl, hu⟩ := heq
  exact ⟨u, hatt, hu⟩

end Follows

end Matcher.Rewriting

/-! ## Sequences -/

namespace Matcher.Attempt

variable [DecidableEq K] [TokenKind K] {m : Matcher K α} {r r' : Run K}
  {o : Outcome K (List (Tree K α))} {c : Clause K} {cs ds : List (Clause K)}
  {ts : List (Tree K α)}

/-- A sequence goes on where its beginning ends. -/
theorem sequence_append (h : m.Attempt (.sequence cs) r (.matched ts r'))
    (h' : m.Attempt (.sequence ds) r' o) :
    m.Attempt (.sequence (cs ++ ds)) r (o.map (ts ++ ·)) := by
  induction cs generalizing r ts with
  | nil =>
    cases h
    cases o <;> exact h'
  | cons c cs ih =>
    generalize hgoal : Outcome.matched ts r' = end_ at h
    cases h with
    | stuck => cases hgoal
    | @andThen _ _ _ r'' us rest hc hcs =>
      cases rest with
      | exhausted | failed => cases hgoal
      | matched vs r''' =>
        obtain ⟨rfl, rfl⟩ := Outcome.matched.injEq .. ▸ hgoal
        have hrest := Attempt.andThen hc (ih hcs)
        cases o <;> simpa using hrest

/-- A sequence fails where its beginning fails. -/
theorem sequence_append_failed (h : m.Attempt (.sequence cs) r (.failed r')) :
    m.Attempt (.sequence (cs ++ ds)) r (.failed r') := by
  induction cs generalizing r with
  | nil => cases h
  | cons c cs ih =>
    generalize hgoal : Outcome.failed r' = end_ at h
    cases h with
    | stuck hc =>
      obtain rfl := Outcome.failed.injEq .. ▸ hgoal
      exact .stuck hc
    | andThen hc hcs =>
      rw [eq_comm, Outcome.map_eq_failed_iff] at hgoal
      subst hgoal
      exact .andThen hc (ih hcs)

/-- **A group that stands in a sequence matches as its members do there**, and any
other clause as itself. -/
theorem placed_append {splices : Bool} (h : m.Attempt (.clause c) r (.matched ts r'))
    (h' : m.Attempt (.sequence cs) r' o) :
    m.Attempt (.sequence (c.placed splices ++ cs)) r (o.map (ts ++ ·)) := by
  cases splices with
  | false => exact .andThen h h'
  | true =>
    cases c with
    | group members =>
      cases h with
      | group _ h => exact h.sequence_append h'
    | token | reference | choice | optional | star | plus => exact .andThen h h'

/-- It fails as its members do, in a style that knows groups. -/
theorem placed_append_failed {splices : Bool} (hstyle : splices = true → m.style = .ebnf)
    (h : m.Attempt (.clause c) r (.failed r')) :
    m.Attempt (.sequence (c.placed splices ++ cs)) r (.failed r') := by
  cases splices with
  | false => exact .stuck h
  | true =>
    cases c with
    | group members =>
      cases h with
      | refused ha => simp [hstyle rfl, Style.allows] at ha
      | group _ h => exact h.sequence_append_failed
    | token | reference | choice | optional | star | plus => exact .stuck h

end Matcher.Attempt

namespace Matcher.Rewriting.Relates

variable [DecidableEq K] [TokenKind K] {R : Rewriting K α} {m m' : Matcher K α}

omit [TokenKind K] in
/-- The same operators stand before operands. -/
theorem leading?_eq (hm : R.Relates m m') (head : NonTerminal K α) (r : Run K) :
    m'.leading? (R.head head) r = m.leading? head r := by
  unfold Matcher.leading?
  rw [hm.tokens]
  rfl

omit [TokenKind K] in
/-- The same operators follow operands. -/
theorem trailing?_eq (hm : R.Relates m m') (head : NonTerminal K α) (least : Nat)
    (r : Run K) :
    m'.trailing? (R.head head) least r = m.trailing? head least r := by
  unfold Matcher.trailing?
  rw [hm.tokens]
  rfl

omit [DecidableEq K] [TokenKind K] in
/-- The rewritten grammar is left-recursive if the other is. -/
theorem isLeftRecursive_eq (hm : R.Relates m m') :
    m'.grammar.isLeftRecursive = m.grammar.isLeftRecursive :=
  Grammar.isLeftRecursive_eq_of_profiles (Grammar.Rewriting.profiles_eq hm.entries)

omit [DecidableEq K] [TokenKind K] in
theorem get?_of_get? (hm : R.Relates m m') {x : String} {n : NonTerminal K α}
    (hx : m.grammar.get? x = some n) : m'.grammar.get? x = some (R.head n) :=
  (Grammar.Rewriting.get?_eq hm.entries x).trans (congrArg (Option.map R.head) hx)

omit [DecidableEq K] [TokenKind K] in
/-- A style knows what a clause becomes if it knows the clause. -/
theorem allows_eq (hm : R.Relates m m') (c : Clause K) :
    m'.style.allows (R.clause c) = m.style.allows c := by
  rw [hm.style]
  cases m.style with
  | plain => exact R.isPlain_clause c
  | ebnf => rfl

end Matcher.Rewriting.Relates

open Matcher (clauseTree operatorTree ruleTree)

variable [DecidableEq K] [TokenKind K] {R : Matcher.Rewriting K α} {m m' : Matcher K α}
  {goal : Goal K α} {r : Run K} {o : Outcome K (List (Tree K α))} {start : String}

open Matcher.Rewriting in
/-- **Every attempt is followed over the rewritten grammar.** -/
theorem Matcher.Attempt.rewritten (h : m.Attempt goal r o) (hm : R.Relates m m')
    {goal' : Goal K α} (hgoal : R.Rewrites goal goal') : R.Follows m' goal' r o := by
  induction h generalizing goal' with
  | undeclared hx =>
    subst hgoal
    refine ⟨_, .undeclared ?_, rfl⟩
    rw [Grammar.Rewriting.get?_eq hm.entries, hx, Option.map_none]
  | head hx hh _ ih =>
    subst hgoal
    obtain ⟨o', hatt, heq⟩ := ih rfl
    exact ⟨o', .head (hm.get?_of_get? hx) hh hatt, heq⟩
  | plain hx hh _ ih =>
    subst hgoal
    obtain ⟨o', hatt, heq⟩ := ih rfl
    exact ⟨o', .plain (hm.get?_of_get? hx) hh hatt, heq⟩
  | noRule =>
    subst hgoal
    exact ⟨_, .noRule, rfl⟩
  | @rule n rule rules _ r' _ _ ih =>
    subst hgoal
    obtain ⟨us, hatt, heq⟩ := (ih rfl).matched
    rw [← R.clauses_rule] at hatt
    refine ⟨_, .rule hatt, congrArg (fun t => Outcome.matched [t] r') ?_⟩
    refine (tree_node heq).trans ?_
    rw [ruleTree, R.callback_rule]
    rfl
  | nextRule _ _ ih ih' =>
    subst hgoal
    obtain ⟨o', hatt, heq⟩ := ih' rfl
    have hfailed := (ih rfl).failed
    rw [← R.clauses_rule] at hfailed
    exact ⟨o', .nextRule hfailed hatt, heq⟩
  | done =>
    subst hgoal
    rw [R.sequence_nil]
    exact ⟨_, .done, rfl⟩
  | stuck _ ih =>
    subst hgoal
    rw [R.sequence_cons]
    exact ⟨_, (ih rfl).failed.placed_append_failed
      fun hs => hm.style.trans (hm.splices hs), rfl⟩
  | andThen _ _ ih ih' =>
    subst hgoal
    rw [R.sequence_cons]
    obtain ⟨ts', hatt, heq⟩ := (ih rfl).matched
    obtain ⟨o', hatt', heq'⟩ := ih' rfl
    exact ⟨_, hatt.placed_append hatt', map_trees_map heq' fun _ _ => trees_append heq⟩
  | refused ha =>
    subst hgoal
    exact ⟨_, .refused ((hm.allows_eq _).trans ha), rfl⟩
  | token ht hk =>
    subst hgoal
    rw [R.clause_token]
    refine ⟨_, .token (hm.tokens ▸ ht) hk, ?_⟩
    exact congrArg (fun d => Outcome.matched [Tree.leaf _ d] _) (R.mark_mark _)
  | noToken ht =>
    subst hgoal
    rw [R.clause_token]
    exact ⟨_, .noToken (hm.tokens ▸ ht), rfl⟩
  | reference _ ih =>
    subst hgoal
    rw [R.clause_reference]
    obtain ⟨o', hatt, heq⟩ := ih rfl
    exact ⟨_, .reference hatt,
      map_trees_map heq fun _ _ => trees_map_setDiscarded _⟩
  | group ha _ ih =>
    subst hgoal
    have ha' := (hm.allows_eq _).trans ha
    rw [R.clause_group] at ha' ⊢
    obtain ⟨o', hatt, heq⟩ := ih rfl
    exact ⟨o', .group ha' hatt, heq⟩
  | choice ha _ ih =>
    subst hgoal
    have ha' := (hm.allows_eq _).trans ha
    rw [R.clause_choice] at ha' ⊢
    obtain ⟨o', hatt, heq⟩ := ih rfl
    exact ⟨o', .choice ha' hatt, heq⟩
  | optional ha _ ih =>
    subst hgoal
    have ha' := (hm.allows_eq _).trans ha
    rw [R.clause_optional] at ha' ⊢
    obtain ⟨us, hatt, heq⟩ := (ih rfl).matched
    exact ⟨_, .optional ha' hatt,
      congrArg (Outcome.matched · _) (trees_clauseTree (.inr rfl) heq)⟩
  | optionalNone ha _ ih =>
    subst hgoal
    have ha' := (hm.allows_eq _).trans ha
    rw [R.clause_optional] at ha' ⊢
    exact ⟨_, .optionalNone ha' (ih rfl).failed,
      congrArg (Outcome.matched · _) (trees_clauseTree (.inr rfl) rfl)⟩
  | star ha _ ih =>
    subst hgoal
    have ha' := (hm.allows_eq _).trans ha
    rw [R.clause_star] at ha' ⊢
    obtain ⟨o', hatt, heq⟩ := ih rfl
    exact ⟨_, .star ha' hatt,
      map_trees_map heq fun _ _ => trees_clauseTree (.inl rfl)⟩
  | plusNone ha _ ih =>
    subst hgoal
    have ha' := (hm.allows_eq _).trans ha
    rw [R.clause_plus] at ha' ⊢
    exact ⟨_, .plusNone ha' (ih rfl).failed, rfl⟩
  | plus ha _ _ ih ih' =>
    subst hgoal
    have ha' := (hm.allows_eq _).trans ha
    rw [R.clause_plus] at ha' ⊢
    obtain ⟨ts', hatt, heq⟩ := (ih rfl).matched
    obtain ⟨o', hatt', heq'⟩ := ih' rfl
    exact ⟨_, .plus ha' hatt hatt', map_trees_map heq' fun _ _ h =>
      trees_clauseTree (.inl rfl) (trees_append heq h)⟩
  | noBranch =>
    subst hgoal
    exact ⟨_, .noBranch, rfl⟩
  | branch _ ih =>
    subst hgoal
    obtain ⟨us, hatt, heq⟩ := (ih rfl).matched
    exact ⟨_, .branch hatt, congrArg (Outcome.matched · _) heq⟩
  | nextBranch _ _ ih ih' =>
    subst hgoal
    obtain ⟨o', hatt, heq⟩ := ih' rfl
    exact ⟨o', .nextBranch (ih rfl).failed hatt, heq⟩
  | stop _ ih =>
    subst hgoal
    exact ⟨_, .stop (ih rfl).failed, rfl⟩
  | still _ hlt ih =>
    subst hgoal
    obtain ⟨us, hatt, _⟩ := (ih rfl).matched
    exact ⟨_, .still hatt hlt, rfl⟩
  | again _ hlt _ ih ih' =>
    subst hgoal
    obtain ⟨ts', hatt, heq⟩ := (ih rfl).matched
    obtain ⟨o', hatt', heq'⟩ := ih' rfl
    exact ⟨_, .again hatt hlt hatt',
      map_trees_map heq' fun _ _ => trees_append heq⟩
  | noOperand _ ih =>
    subst hgoal
    exact ⟨_, .noOperand (ih rfl).failed, rfl⟩
  | fromOperand _ _ ih ih' =>
    subst hgoal
    obtain ⟨left', hatt, heq⟩ := (ih rfl).singleton
    obtain ⟨o', hatt', heq'⟩ := ih' ⟨left', heq, rfl⟩
    exact ⟨o', .fromOperand hatt hatt', heq'⟩
  | noOperator ht =>
    obtain ⟨left', heq, rfl⟩ := hgoal
    exact ⟨_, .noOperator ((hm.trailing?_eq _ _ _).trans ht),
      congrArg (fun t => Outcome.matched [t] _) heq⟩
  | @postfixed _ _ left _ t op _ _ ht hp _ ih =>
    obtain ⟨left', heq, rfl⟩ := hgoal
    have hchildren : R.trees [left', .leaf t false] = R.trees [left, .leaf t false] :=
      congrArg (fun u => [u, _]) heq
    obtain ⟨o', hatt, heq'⟩ := ih ⟨_, tree_node hchildren, rfl⟩
    exact ⟨o', .postfixed ((hm.trailing?_eq _ _ _).trans ht) hp hatt, heq'⟩
  | noRight ht hp _ ih =>
    obtain ⟨left', heq, rfl⟩ := hgoal
    exact ⟨_, .noRight ((hm.trailing?_eq _ _ _).trans ht) hp (ih rfl).failed,
      congrArg (fun t => Outcome.matched [t] _) heq⟩
  | @infixed _ _ left right _ _ t op _ _ _ ht hp _ _ ih ih' =>
    obtain ⟨left', heq, rfl⟩ := hgoal
    obtain ⟨right', hatt, hright⟩ := (ih rfl).singleton
    have hchildren : R.trees [left', .leaf t false, right'] =
        R.trees [left, .leaf t false, right] :=
      congrArg₂ (fun u v => [u, _, v]) heq hright
    obtain ⟨o', hatt', heq'⟩ := ih' ⟨_, tree_node hchildren, rfl⟩
    exact ⟨o', .infixed ((hm.trailing?_eq _ _ _).trans ht) hp hatt hatt', heq'⟩
  | noPrefix ht _ ih =>
    subst hgoal
    obtain ⟨o', hatt, heq⟩ := ih rfl
    exact ⟨o', .noPrefix ((hm.leading?_eq _ _).trans ht) hatt, heq⟩
  | @prefixed _ _ _ t op right ht _ ih =>
    subst hgoal
    obtain ⟨right', hatt, hright⟩ := (ih rfl).singleton
    have hchildren : R.trees [.leaf t false, right'] =
        R.trees [.leaf t false, right] :=
      congrArg (fun u => [_, u]) hright
    exact ⟨_, .prefixed ((hm.leading?_eq _ _).trans ht) hatt,
      congrArg (fun t => Outcome.matched [t] _) (tree_node hchildren)⟩
  | prefixNone ht _ _ ih ih' =>
    subst hgoal
    obtain ⟨o', hatt, heq⟩ := ih' rfl
    exact ⟨o', .prefixNone ((hm.leading?_eq _ _).trans ht) (ih rfl).failed hatt, heq⟩

/-! ## Parses -/

namespace Matcher.Rewriting.Relates

/-- **The run against all tokens is the same over the rewritten grammar**, and so is
its tree up to what is left of it. -/
theorem matchAll_eq (hm : R.Relates m m') (hrec : m.grammar.isLeftRecursive = false)
    (start : String) :
    (m'.matchAll start).map R.tree = (m.matchAll start).map R.tree := by
  obtain ⟨o, _, hatt, _⟩ := Matcher.exists_outcome hrec (.name start) .start
  have hgoal : R.Rewrites (.name start) (.name start) := rfl
  obtain ⟨o', hatt', heq⟩ := hatt.rewritten hm hgoal
  have hsingle (x : Outcome K (Tree K α)) :
      (x.map R.tree).map ([·]) = (x.map ([·])).map R.trees := by
    cases x <;> rfl
  refine Outcome.map_injective (f := ([·])) (fun _ _ => List.singleton_inj.mp) ?_
  rw [hsingle, hsingle, Matcher.map_matchAll hrec hatt,
    Matcher.map_matchAll (hm.isLeftRecursive_eq.trans hrec) hatt', hm.tokens]
  cases o with
  | exhausted | failed => cases o' <;> cases heq; rfl
  | matched ts r =>
    cases o' with
    | exhausted | failed => cases heq
    | matched us r' =>
      obtain ⟨hts, rfl⟩ := Outcome.matched.injEq .. ▸ heq
      simp only [Outcome.bind_matched]
      split
      · exact congrArg (Outcome.matched · r') hts
      · rfl

/-- **A parse answers the same over the rewritten grammar**, up to what is left of
the tree. -/
theorem parse_eq (hm : R.Relates m m') (hrec : m.grammar.isLeftRecursive = false)
    (start : String) :
    (m'.parse start).map (Except.map R.tree) =
      (m.parse start).map (Except.map R.tree) := by
  have hmatch := hm.matchAll_eq hrec start
  have hcontains : m'.grammar.contains = m.grammar.contains :=
    Grammar.contains_eq_of_profiles (Grammar.Rewriting.profiles_eq hm.entries)
  unfold Matcher.parse Matcher.unexpected
  rw [hcontains, hm.tokens]
  cases m.grammar.contains start with
  | false => rfl
  | true =>
    simp only [if_true]
    cases hrun : m.matchAll start with
    | exhausted =>
      rw [hrun, Outcome.map_exhausted, Outcome.map_eq_exhausted_iff] at hmatch
      rw [hmatch]
    | failed r =>
      rw [hrun, Outcome.map_failed, Outcome.map_eq_failed_iff] at hmatch
      rw [hmatch]
    | matched tree r =>
      cases hrun' : m'.matchAll start with
      | exhausted | failed => rw [hrun, hrun'] at hmatch; cases hmatch
      | matched tree' r' =>
        rw [hrun, hrun', Outcome.map_matched, Outcome.map_matched,
          Outcome.matched.injEq] at hmatch
        exact congrArg (fun t => Except.ok (Except.ok t)) hmatch.1

end Matcher.Rewriting.Relates

end Descent
