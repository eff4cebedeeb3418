import Descent.Proofs.Matching.Peg
import Descent.Proofs.RuleText.Written
import Descent.Proofs.Tree.Values

/-!
# What the clauses of a rule contribute to its callback

Reduction sees trees and not clauses. The children of a rule's node are the
trees that its clauses gave, in one list, and what a callback is given are the
values of those that are not discarded. `Grammar.Contributes` says the same
clause by clause, at the head of some tokens and without a tree: a token or an
output for what is matched once, nothing for what is discarded, a list for a
repetition, and an optional value that is missing exactly if its clause fails
there.

The two agree (`Matcher.Attempt.shows`, `Grammar.Contributes.peg`). The
one thing to be shown is about options. An option is taken to have matched if
its node has children, so a clause that matches has to give a tree
(`Grammar.Peg.fills`). An empty group would match and give none; rule texts
cannot express one.
-/

namespace Descent

variable {K α : Type}

/-! ## Derived trees have values -/

namespace Tree

/-- **A tree is an output** if callbacks are shown it, and shown an output. -/
def IsOutput (t : Tree K α) : Prop :=
  t.isDiscarded = false ∧ ∃ x, t.value = .ok (.out x)

end Tree

open Descent.Tree (liveValues contentOf)
open Matcher (ruleTree operatorTree clauseTree)

/-- What derived trees are to callbacks: a name gives an output, and whatever
else gives values. -/
def Phrase.Valued : Phrase K → List (Tree K α) → Prop
  | .name _, ts => ∃ t, ts = [t] ∧ t.IsOutput
  | .clause _, ts | .sequence _, ts => ∃ vs, liveValues ts = .ok vs

namespace Grammar

variable [TokenKind K] {g : Grammar K α}

/-- **Derived trees have values**: no node of theirs lacks the callback that it
needs. -/
theorem Derives.valued {p : Phrase K} {ts : List (Tree K α)}
    (h : g.Derives p ts) : p.Valued ts := by
  induction h with
  | rule _ _ _ ih =>
    obtain ⟨vs, hvs⟩ := ih
    exact ⟨_, rfl, rfl, _, Tree.value_node (.inl rfl) rfl hvs⟩
  | prefixed _ _ _ _ _ ih =>
    obtain ⟨_, heq, hd, y, hy⟩ := ih
    obtain rfl := List.singleton_inj.mp heq
    exact ⟨_, rfl, rfl, _, Tree.value_node (.inr rfl) rfl
      (Tree.liveValues_cons rfl rfl (Tree.liveValues_cons hd hy rfl))⟩
  | infixed _ _ _ _ _ _ ih ih' =>
    obtain ⟨_, heq, hd, x, hx⟩ := ih
    obtain rfl := List.singleton_inj.mp heq
    obtain ⟨_, heq', hd', y, hy⟩ := ih'
    obtain rfl := List.singleton_inj.mp heq'
    exact ⟨_, rfl, rfl, _, Tree.value_node (.inr rfl) rfl
      (Tree.liveValues_cons hd hx (Tree.liveValues_cons rfl rfl
        (Tree.liveValues_cons hd' hy rfl)))⟩
  | postfixed _ _ _ _ _ ih =>
    obtain ⟨_, heq, hd, x, hx⟩ := ih
    obtain rfl := List.singleton_inj.mp heq
    exact ⟨_, rfl, rfl, _, Tree.value_node (.inr rfl) rfl
      (Tree.liveValues_cons hd hx (Tree.liveValues_cons rfl rfl rfl))⟩
  | @token k d t _ =>
    cases d with
    | false => exact ⟨[.token t], rfl⟩
    | true => exact ⟨[], rfl⟩
  | @reference x d t _ ih =>
    obtain ⟨_, heq, _, y, hy⟩ := ih
    obtain rfl := List.singleton_inj.mp heq
    cases d with
    | false =>
      exact ⟨[.out y], Tree.liveValues_cons (by simp) (by simpa using hy) rfl⟩
    | true => exact ⟨[], Tree.liveValues_cons_of_isDiscarded (by simp) []⟩
  | group _ ih | choice _ _ ih => exact ih
  | optionalNone => exact ⟨[.optional none], rfl⟩
  | @optional b ts _ ih =>
    obtain ⟨vs, hvs⟩ := ih
    rcases eq_or_ne ts [] with rfl | hne
    · exact ⟨_, Tree.liveValues_optional_nil⟩
    · exact ⟨_, Tree.liveValues_optional hvs hne⟩
  | star _ ih | plus _ _ ih =>
    obtain ⟨vs, hvs⟩ := Tree.exists_liveValues_flatten ih
    exact ⟨_, Tree.liveValues_many hvs⟩
  | nil => exact ⟨[], rfl⟩
  | cons _ _ ih ih' =>
    obtain ⟨vs, hvs⟩ := ih
    obtain ⟨ws, hws⟩ := ih'
    exact ⟨vs ++ ws, Tree.liveValues_append hvs hws⟩

/-- The tree of a name is an output. -/
theorem Derives.isOutput {x : String} {t : Tree K α}
    (h : g.Derives (.name x) [t]) : t.IsOutput := by
  obtain ⟨_, heq, ht⟩ := h.valued
  obtain rfl := List.singleton_inj.mp heq
  exact ht

end Grammar

/-- **A parsed tree has an output.** -/
theorem Matcher.exists_reduce_of_parse [DecidableEq K] [TokenKind K]
    {m : Matcher K α} {start : String} {tree : Tree K α}
    (h : m.parse start = .ok (.ok tree)) : ∃ y, tree.reduce = .ok y := by
  obtain ⟨_, y, hy⟩ := (derives_of_parse h).isOutput
  exact ⟨y, by rw [Tree.reduce, hy]⟩

/-! ## What clauses contribute -/

/-- What a part of a rule contributes that is matched once: its value, or nothing
if it is discarded. -/
def Value.live (discarded : Bool) (v : Value K α) : List (Value K α) :=
  if discarded then [] else [v]

namespace Grammar

variable [DecidableEq K] [TokenKind K]

/-- **What a clause contributes to a callback** at the head of some tokens, with
the tokens left after it. -/
inductive Contributes (g : Grammar K α) (s : Style) :
    Goal K α → List (Token K) → List (Value K α) → List (Token K) → Prop
  /-- No clause contributes nothing. -/
  | done {ts : List (Token K)} : Contributes g s (.sequence []) ts [] ts
  /-- Clauses contribute one after the other. -/
  | andThen {c : Clause K} {cs : List (Clause K)} {ts mid rest : List (Token K)}
      {vs ws : List (Value K α)} :
      Contributes g s (.clause c) ts vs mid →
      Contributes g s (.sequence cs) mid ws rest →
      Contributes g s (.sequence (c :: cs)) ts (vs ++ ws) rest
  /-- A token of the kind. -/
  | token {k : K} {d : Bool} {t : Token K} {ts : List (Token K)} :
      t.kind = k →
      Contributes g s (.clause (.token k d)) (t :: ts) (Value.live d (.token t))
        ts
  /-- The output of what the name means. -/
  | reference {x : String} {d : Bool} {ts rest : List (Token K)} {u : Tree K α}
      {y : α} :
      g.Peg s (.name x) ts (some ([u], rest)) → u.value = .ok (.out y) →
      Contributes g s (.clause (.reference x d)) ts (Value.live d (.out y)) rest
  /-- What the members of a group contribute. -/
  | group {cs : List (Clause K)} {ts rest : List (Token K)}
      {vs : List (Value K α)} :
      s.allows (.group cs) = true →
      Contributes g s (.sequence cs) ts vs rest →
      Contributes g s (.clause (.group cs)) ts vs rest
  /-- What the branches of a choice contribute. -/
  | choice {bs : List (Clause K)} {ts rest : List (Token K)}
      {vs : List (Value K α)} :
      s.allows (.choice bs) = true →
      Contributes g s (.choice bs) ts vs rest →
      Contributes g s (.clause (.choice bs)) ts vs rest
  /-- The first branch that matches contributes: all before it fail at the same
  tokens. -/
  | branch {before after : List (Clause K)} {b : Clause K}
      {ts rest : List (Token K)} {vs : List (Value K α)} :
      (∀ earlier ∈ before, g.Peg s (.clause earlier) ts none) →
      Contributes g s (.clause b) ts vs rest →
      Contributes g s (.choice (before ++ b :: after)) ts vs rest
  /-- What an option holds is there: the one value of its clause, or a list of
  its values. -/
  | optional {b : Clause K} {ts rest : List (Token K)} {vs : List (Value K α)} :
      s.allows (.optional b) = true →
      Contributes g s (.clause b) ts vs rest →
      Contributes g s (.clause (.optional b)) ts
        [.optional (some (contentOf vs))] rest
  /-- The clause of an option fails, and what it holds is missing. -/
  | optionalNone {b : Clause K} {ts : List (Token K)} :
      s.allows (.optional b) = true →
      g.Peg s (.clause b) ts none →
      Contributes g s (.clause (.optional b)) ts [.optional none] ts
  /-- A list of what the iterations contribute. -/
  | star {b : Clause K} {ts rest : List (Token K)} {vs : List (Value K α)} :
      s.allows (.star b) = true →
      Contributes g s (.iterations b) ts vs rest →
      Contributes g s (.clause (.star b)) ts [.list vs] rest
  /-- A list of what the first iteration and the others contribute. -/
  | plus {b : Clause K} {ts mid rest : List (Token K)}
      {vs ws : List (Value K α)} :
      s.allows (.plus b) = true →
      Contributes g s (.clause b) ts vs mid →
      Contributes g s (.iterations b) mid ws rest →
      Contributes g s (.clause (.plus b)) ts [.list (vs ++ ws)] rest
  /-- The iterations end where the clause fails. -/
  | stop {b : Clause K} {ts : List (Token K)} :
      g.Peg s (.clause b) ts none →
      Contributes g s (.iterations b) ts [] ts
  /-- The iterations end where the clause takes no token. -/
  | still {b : Clause K} {ts : List (Token K)} {us : List (Tree K α)} :
      g.Peg s (.clause b) ts (some (us, ts)) →
      Contributes g s (.iterations b) ts [] ts
  /-- The iterations go on where the clause takes tokens. -/
  | again {b : Clause K} {ts mid rest : List (Token K)}
      {vs ws : List (Value K α)} :
      Contributes g s (.clause b) ts vs mid → mid.length < ts.length →
      Contributes g s (.iterations b) mid ws rest →
      Contributes g s (.iterations b) ts (vs ++ ws) rest

end Grammar

/-- A token is shown unless it is discarded. -/
theorem Tree.liveValues_leaf (t : Token K) (d : Bool) :
    liveValues [(.leaf t d : Tree K α)] = .ok (Value.live d (.token t)) := by
  cases d <;> rfl

/-- An output is shown unless it is discarded. -/
theorem Tree.liveValues_setDiscarded {u : Tree K α} {y : α}
    (hy : u.value = .ok (.out y)) (d : Bool) :
    liveValues ([u].map (·.setDiscarded d)) = .ok (Value.live d (.out y)) := by
  cases d with
  | false => exact liveValues_cons (by simp) (by simpa using hy) rfl
  | true => exact liveValues_cons_of_isDiscarded (by simp) []

/-! ## A clause that matches gives a tree -/

/-- All clauses of a goal are such as rule texts can have. -/
def Goal.IsWritten [TokenKind K] : Goal K α → Prop
  | sequence cs | choice cs => ∀ c ∈ cs, c.IsWritten
  | clause c | iterations c => c.IsWritten
  | _ => True

/-- **What a match gives is not nothing**, unless nothing was asked for or a
repetition may have no iterations. -/
def Goal.Filled : Goal K α → List (Tree K α) → Prop
  | sequence cs, us => cs ≠ [] → us ≠ []
  | iterations _, _ => True
  | _, us => us ≠ []

namespace Grammar

variable [DecidableEq K] [TokenKind K] {g : Grammar K α} {s : Style}
  {goal : Goal K α} {ts rest : List (Token K)}
  {a : Option (List (Tree K α) × List (Token K))} {vs : List (Value K α)}

/-- **A written clause that matches gives a tree.** -/
theorem Peg.fills (h : g.Peg s goal ts a) (hgoal : goal.IsWritten) :
    ∀ x ∈ a, goal.Filled x.1 := by
  induction h with
  | undeclared | noRule | stuck | stuckAfter | refused | noToken | noReference
  | plusNone | noBranch | noOperand => exact fun _ hx => by cases hx
  | head _ _ _ ih | plain _ _ _ ih | prefixNone _ _ _ _ ih | noPrefix _ _ ih
  | infixed _ _ _ _ _ _ ih | postfixed _ _ _ _ ih | fromOperand _ _ _ ih =>
    exact ih trivial
  | rule | token | optional | optionalNone | star | plus | noOperator | noRight
  | prefixed =>
    rintro _ ⟨⟩
    exact List.cons_ne_nil _ _
  | done =>
    rintro _ ⟨⟩
    exact fun h => absurd rfl h
  | stop | still | again =>
    rintro _ ⟨⟩
    trivial
  | andThen _ _ ih _ =>
    rintro _ ⟨⟩
    have hus := ih (hgoal _ List.mem_cons_self) _ rfl
    exact fun _ => List.append_ne_nil_of_left_ne_nil hus _
  | reference _ ih =>
    rintro _ ⟨⟩
    have hus := ih trivial _ rfl
    exact fun h => hus (List.map_eq_nil_iff.mp h)
  | @group cs ts a _ _ ih =>
    cases hgoal with
    | group hlen hcs =>
      exact fun x hx => ih hcs x hx (List.ne_nil_of_length_pos (by omega))
  | choice _ _ ih =>
    cases hgoal with
    | choice _ hbs => exact ih hbs
  | branch heq _ _ _ ih =>
    exact ih (hgoal _ (heq ▸ List.mem_append_right _ List.mem_cons_self))

/-- **What clauses contribute are the values of the trees that they give.** -/
theorem Contributes.peg (h : g.Contributes s goal ts vs rest)
    (hgoal : goal.IsWritten) :
    ∃ us, g.Peg s goal ts (some (us, rest)) ∧ liveValues us = .ok vs := by
  induction h with
  | done => exact ⟨[], .done, rfl⟩
  | andThen _ _ ih ih' =>
    obtain ⟨hc, hcs⟩ := List.forall_mem_cons.mp hgoal
    obtain ⟨us, hus, hvs⟩ := ih hc
    obtain ⟨us', hus', hvs'⟩ := ih' hcs
    exact ⟨us ++ us', .andThen hus hus', Tree.liveValues_append hvs hvs'⟩
  | token hk => exact ⟨_, .token hk, Tree.liveValues_leaf _ _⟩
  | reference hx hy =>
    exact ⟨_, .reference hx, Tree.liveValues_setDiscarded hy _⟩
  | group hs _ ih =>
    cases hgoal with
    | group _ hcs =>
      obtain ⟨us, hus, hvs⟩ := ih hcs
      exact ⟨us, .group hs hus, hvs⟩
  | choice hs _ ih =>
    cases hgoal with
    | choice _ hbs =>
      obtain ⟨us, hus, hvs⟩ := ih hbs
      exact ⟨us, .choice hs hus, hvs⟩
  | branch hbefore _ ih =>
    obtain ⟨us, hus, hvs⟩ :=
      ih (hgoal _ (List.mem_append_right _ List.mem_cons_self))
    exact ⟨us, .branch rfl hbefore hus, hvs⟩
  | optional hs _ ih =>
    cases hgoal with
    | optional hb =>
      obtain ⟨us, hus, hvs⟩ := ih hb
      have hne : us ≠ [] := hus.fills hb _ rfl
      exact ⟨_, .optional hs hus, Tree.liveValues_optional hvs hne⟩
  | optionalNone hs hfail =>
    exact ⟨_, .optionalNone hs hfail, Tree.liveValues_optional_nil⟩
  | star hs _ ih =>
    cases hgoal with
    | star hb =>
      obtain ⟨us, hus, hvs⟩ := ih hb
      exact ⟨_, .star hs hus, Tree.liveValues_many hvs⟩
  | plus hs _ _ ih ih' =>
    cases hgoal with
    | plus hb =>
      obtain ⟨us, hus, hvs⟩ := ih hb
      obtain ⟨us', hus', hvs'⟩ := ih' hb
      exact ⟨_, .plus hs hus hus',
        Tree.liveValues_many (Tree.liveValues_append hvs hvs')⟩
  | stop hfail => exact ⟨[], .stop hfail, rfl⟩
  | still hstay => exact ⟨[], .still hstay, rfl⟩
  | again _ hlt _ ih ih' =>
    obtain ⟨us, hus, hvs⟩ := ih hgoal
    obtain ⟨us', hus', hvs'⟩ := ih' hgoal
    exact ⟨us ++ us', .again hus hlt hus', Tree.liveValues_append hvs hvs'⟩

/-- **Clauses contribute one thing at most** at given tokens. -/
theorem Contributes.unique {rest' : List (Token K)} {vs' : List (Value K α)}
    (h : g.Contributes s goal ts vs rest) (h' : g.Contributes s goal ts vs' rest')
    (hgoal : goal.IsWritten) : vs = vs' ∧ rest = rest' := by
  obtain ⟨us, hus, hvs⟩ := h.peg hgoal
  obtain ⟨us', hus', hvs'⟩ := h'.peg hgoal
  obtain ⟨rfl, rfl⟩ := Prod.mk.inj (Option.some.inj (hus.unique hus'))
  exact ⟨Except.ok.inj (hvs.symm.trans hvs'), rfl⟩

/-- A branch that fails can stand before any others. -/
theorem Contributes.after_branch {b : Clause K} {bs : List (Clause K)}
    (h : g.Contributes s (.choice bs) ts vs rest)
    (hfail : g.Peg s (.clause b) ts none) :
    g.Contributes s (.choice (b :: bs)) ts vs rest := by
  cases h with
  | @branch before after b' _ _ _ hbefore hb' =>
    rw [← List.cons_append]
    exact .branch (List.forall_mem_cons.mpr ⟨hfail, hbefore⟩) hb'

end Grammar

/-! ## What a match contributes -/

namespace Matcher

open Grammar (Contributes)

variable [DecidableEq K] [TokenKind K] {m : Matcher K α} {goal : Goal K α}
  {r : Run K} {o : Outcome K (List (Tree K α))}

/-- **What the trees of a match are to a callback**: if the goal consists of
clauses, what these contribute. -/
def Shows (m : Matcher K α) (r : Run K) (goal : Goal K α)
    (us : List (Tree K α)) (r' : Run K) : Prop :=
  match goal with
  | .sequence _ | .clause _ | .choice _ | .iterations _ =>
    ∃ vs, liveValues us = .ok vs ∧
      m.grammar.Contributes m.style goal (m.rest r) vs (m.rest r')
  | _ => True

/-- **A match shows callbacks what its clauses contribute** where it was
begun. -/
theorem Attempt.shows (h : m.Attempt goal r o) (hgoal : goal.IsWritten) :
    o.Ensures (fun _ => True) (m.Shows r goal) := by
  induction h with
  | undeclared | noRule | stuck | refused | noToken | plusNone | noBranch
  | noOperand | rule | noOperator | noRight | prefixed => trivial
  | head | plain | nextRule | fromOperand | postfixed | infixed | noPrefix
  | prefixNone => exact Outcome.ensures_of_forall (fun _ => trivial) fun _ _ => trivial
  | done => exact ⟨[], rfl, .done⟩
  | andThen _ _ ih ih' =>
    obtain ⟨hc, hcs⟩ := List.forall_mem_cons.mp hgoal
    obtain ⟨vs, hvs, hcontr⟩ := ih hc
    refine Outcome.ensures_map.mpr ((ih' hcs).imp (fun _ h => h) ?_)
    rintro us _ ⟨ws, hws, hcontr'⟩
    exact ⟨vs ++ ws, Tree.liveValues_append hvs hws, .andThen hcontr hcontr'⟩
  | token ht hk =>
    refine ⟨_, Tree.liveValues_leaf _ _, ?_⟩
    rw [rest_eq_cons ht]
    exact .token hk
  | @reference x d r o hx _ =>
    cases o with
    | exhausted | failed => trivial
    | matched us r' =>
      -- the tree of a name is derived from it, so it is an output
      have hder : m.grammar.Derives (.name x) us := hx.derives trivial
      obtain ⟨u, rfl, _, y, hy⟩ := hder.valued
      exact ⟨_, Tree.liveValues_setDiscarded hy d, .reference hx.peg hy⟩
  | group hs _ ih =>
    cases hgoal with
    | group _ hcs =>
      refine (ih hcs).imp (fun _ h => h) ?_
      rintro us _ ⟨vs, hvs, hcontr⟩
      exact ⟨vs, hvs, .group hs hcontr⟩
  | choice hs _ ih =>
    cases hgoal with
    | choice _ hbs =>
      refine (ih hbs).imp (fun _ h => h) ?_
      rintro us _ ⟨vs, hvs, hcontr⟩
      exact ⟨vs, hvs, .choice hs hcontr⟩
  | optional hs hatt ih =>
    cases hgoal with
    | optional hb =>
      obtain ⟨vs, hvs, hcontr⟩ := ih hb
      have hne := hatt.peg.fills hb _ rfl
      exact ⟨_, Tree.liveValues_optional hvs hne, .optional hs hcontr⟩
  | optionalNone hs hatt _ =>
    exact ⟨_, Tree.liveValues_optional_nil, .optionalNone hs hatt.peg⟩
  | star hs _ ih =>
    cases hgoal with
    | star hb =>
      refine Outcome.ensures_map.mpr ((ih hb).imp (fun _ h => h) ?_)
      rintro us _ ⟨vs, hvs, hcontr⟩
      exact ⟨_, Tree.liveValues_many hvs, .star hs hcontr⟩
  | plus hs _ _ ih ih' =>
    cases hgoal with
    | plus hb =>
      obtain ⟨vs, hvs, hcontr⟩ := ih hb
      refine Outcome.ensures_map.mpr ((ih' hb).imp (fun _ h => h) ?_)
      rintro us _ ⟨ws, hws, hcontr'⟩
      exact ⟨_, Tree.liveValues_many (Tree.liveValues_append hvs hws),
        .plus hs hcontr hcontr'⟩
  | branch _ ih =>
    obtain ⟨hb, _⟩ := List.forall_mem_cons.mp hgoal
    obtain ⟨vs, hvs, hcontr⟩ := ih hb
    exact ⟨vs, hvs, .branch (fun _ h => absurd h List.not_mem_nil) hcontr⟩
  | nextBranch hatt _ _ ih =>
    obtain ⟨_, hbs⟩ := List.forall_mem_cons.mp hgoal
    refine (ih hbs).imp (fun _ h => h) ?_
    rintro us _ ⟨vs, hvs, hcontr⟩
    exact ⟨vs, hvs, hcontr.after_branch hatt.peg⟩
  | stop hatt _ => exact ⟨[], rfl, .stop hatt.peg⟩
  | still hatt hlt _ =>
    have hpeg := hatt.peg
    rw [shown, rest_eq_of_not_lt hatt.extends hlt] at hpeg
    exact ⟨[], rfl, .still hpeg⟩
  | again hatt hlt _ ih ih' =>
    obtain ⟨vs, hvs, hcontr⟩ := ih hgoal
    refine Outcome.ensures_map.mpr ((ih' hgoal).imp (fun _ h => h) ?_)
    rintro us _ ⟨ws, hws, hcontr'⟩
    exact ⟨vs ++ ws, Tree.liveValues_append hvs hws,
      .again hcontr (length_rest_lt hatt.extends hlt) hcontr'⟩

end Matcher

end Descent
