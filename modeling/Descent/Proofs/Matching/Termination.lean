import Descent.Matching.Parse
import Descent.Proofs.Grammar.LeftRank
import Descent.Proofs.Matching.Progress
import Descent.Script

/-!
# Matching without left recursion comes to an end

A step budget that suffices can be told from the grammar and the number of
tokens. Between two tokens the matcher goes down: into parts of a goal, which
are smaller, and into non-terminals that can come first, which are of lower
rank. `Matcher.need` puts the three together, tokens first, then rank, then
size, so that whatever a goal calls needs fewer steps than the goal
(`Within.same`, `Within.later`, `Within.enter`).

The order holds only because what can come first is not underestimated. A goal
that comes after others at one index is among what can come first because those
others are nullable, which is what `Attempt.isNullable_of_still` says.
-/

namespace Descent

variable {K α : Type}

namespace Goal

/-- The steps that a goal is deep, as long as no non-terminal is entered. -/
@[simp] def depth : Goal K α → Nat
  | name _ | climb .. => 1
  | rules _ rs => Rule.weightAll rs + 1
  | sequence clauses => Clause.weightAll clauses + 1
  | clause c => c.weight + 1
  | choice branches => Clause.weightAll branches + 1
  | iterations body => body.weight + 2
  | expression head _ => Rule.weightAll head.rules + 3
  | operand head => Rule.weightAll head.rules + 2

/-- **The steps that a goal is deep**, with what it goes on with after a
token. -/
@[simp] def weight : Goal K α → Nat
  | climb head .. | operand head => Rule.weightAll head.rules + 3
  | goal => goal.depth

theorem one_le_depth (goal : Goal K α) : 1 ≤ goal.depth := by
  cases goal <;> simp

theorem depth_le_weight (goal : Goal K α) : goal.depth ≤ goal.weight := by
  cases goal <;> simp

end Goal

/-- A non-terminal is no deeper than its grammar. -/
theorem Grammar.weightAll_le_weight {g : Grammar K α} {x : String}
    {n : NonTerminal K α} (hx : g.get? x = some n) :
    Rule.weightAll n.rules + 4 ≤ g.weight := by
  have key : ∀ ns : List (NonTerminal K α), n ∈ ns →
      Rule.weightAll n.rules + 4 ≤ NonTerminal.weightAll ns := by
    intro ns
    induction ns with
    | nil => exact fun h => absurd h List.not_mem_nil
    | cons m ns ih =>
      intro hn
      rw [NonTerminal.weightAll]
      rcases List.mem_cons.mp hn with rfl | hn
      · omega
      · have := ih hn
        omega
  exact key g.nonTerminals (List.mem_of_find?_eq_some hx)

/-- **The steps that suffice** for a goal of a weight over a number of tokens. -/
def Grammar.stepBound (g : Grammar K α) (tokens weight : Nat) : Nat :=
  (tokens + 1) * (g.size + 1) * max (g.weight + 5) weight

namespace Matcher

variable {m : Matcher K α} {ρ : m.grammar.Ranking} {span n k : Nat}
  {goal goal' : Goal K α} {r r' : Run K}

/-- **The steps needed** by a goal of a rank and a depth at an index, where
nothing is deeper than `span`. -/
def need (m : Matcher K α) (span index rank depth : Nat) : Nat :=
  (m.tokens.length - index) * ((m.grammar.size + 1) * span) + rank * span + depth

/-- **A goal is within a step budget**: what can come first in it is of rank
`k` or lower, and the budget is at least what it needs. -/
structure Within (m : Matcher K α) (ρ : m.grammar.Ranking) (span n : Nat)
    (goal : Goal K α) (r : Run K) (k : Nat) : Prop where
  /-- What can come first is of rank `k` at most. -/
  rank : ∀ x ∈ goal.leftmost m.grammar.nullable.contains, ρ.rank x ≤ k
  /-- Ranks are no larger than the number of non-terminals. -/
  le : k ≤ m.grammar.size
  /-- The goal is no deeper than `span`. -/
  weight : goal.weight ≤ span
  /-- The budget suffices. -/
  need : m.need span r.index k goal.depth ≤ n

namespace Within

/-- No goal is within the empty budget. -/
theorem ne_zero (h : m.Within ρ span n goal r k) : n ≠ 0 := by
  rintro rfl
  have := h.need
  have := goal.one_le_depth
  rw [Matcher.need] at *
  omega

/-- **At the same index**, what is smaller and has nothing new to come first is
within the rest of the budget. -/
theorem same (h : m.Within ρ span (n + 1) goal r k) (hr : r'.index = r.index)
    (hleft : goal'.leftmost m.grammar.nullable.contains ⊆
      goal.leftmost m.grammar.nullable.contains)
    (hdepth : goal'.depth < goal.depth) (hweight : goal'.weight ≤ goal.weight) :
    m.Within ρ span n goal' r' k where
  rank x hx := h.rank x (hleft hx)
  le := h.le
  weight := Nat.le_trans hweight h.weight
  need := by
    have := h.need
    rw [Matcher.need] at *
    rw [hr]
    omega

/-- **After a token**, everything is within the rest of the budget. -/
theorem later (h : m.Within ρ span (n + 1) goal r k) (hext : m.Extends r r')
    (hlt : r.index < r'.index) (hweight : goal'.weight ≤ goal.weight) :
    m.Within ρ span n goal' r' m.grammar.size where
  rank x _ := ρ.rank_le x
  le := Nat.le_refl _
  weight := Nat.le_trans hweight h.weight
  need := by
    have hneed := h.need
    have hpos := goal.one_le_depth
    have hdepth := Nat.le_trans goal'.depth_le_weight
      (Nat.le_trans hweight h.weight)
    have hbound := hext.bound
    -- one token pays for every rank and any depth
    obtain ⟨d, hd⟩ : ∃ d, m.tokens.length - r.index =
        m.tokens.length - r'.index + (d + 1) :=
      ⟨r'.index - r.index - 1, by omega⟩
    rw [Matcher.need] at *
    rw [hd, Nat.add_mul, Nat.add_mul d, Nat.add_mul m.grammar.size] at hneed
    rw [Nat.add_mul m.grammar.size]
    have : 0 ≤ d * (m.grammar.size * span + 1 * span) := Nat.zero_le _
    omega

/-- **After a match**, what is smaller, and has nothing new to come first if no
token was taken, is within the rest of the budget. -/
theorem after (h : m.Within ρ span (n + 1) goal r k) (goal' : Goal K α)
    (hext : m.Extends r r')
    (hleft : r'.index = r.index →
      goal'.leftmost m.grammar.nullable.contains ⊆
        goal.leftmost m.grammar.nullable.contains)
    (hdepth : goal'.depth < goal.depth) (hweight : goal'.weight ≤ goal.weight) :
    ∃ k', m.Within ρ span n goal' r' k' := by
  rcases Nat.eq_or_lt_of_le hext.le with heq | hlt
  · exact ⟨k, h.same heq.symm (hleft heq.symm) hdepth hweight⟩
  · exact ⟨m.grammar.size, h.later hext hlt hweight⟩

/-- **Entering a non-terminal** goes down in rank. -/
theorem enter {x : String} {head : NonTerminal K α}
    (h : m.Within ρ span (n + 1) (.name x) r k)
    (hspan : m.grammar.weight ≤ span) (hx : m.grammar.get? x = some head)
    (hr : r'.index = r.index)
    (hleft : ∀ y ∈ goal'.leftmost m.grammar.nullable.contains,
      ∃ rule ∈ head.rules, y ∈ rule.leftmost m.grammar.nullable.contains)
    (hweight : goal'.weight ≤ Rule.weightAll head.rules + 3) :
    m.Within ρ span n goal' r' (k - 1) where
  rank y hy := by
    obtain ⟨rule, hrule, hy⟩ := hleft y hy
    have hlt := ρ.rank_lt hx rule hrule y hy
    have hle := h.rank x (by simp)
    omega
  le := Nat.le_trans (Nat.sub_le _ _) h.le
  weight := by
    have := m.grammar.weightAll_le_weight hx
    omega
  need := by
    have hneed := h.need
    have hpos := ρ.rank_pos hx
    have hle := h.rank x (by simp)
    have hdepth := goal'.depth_le_weight
    have hdeep := m.grammar.weightAll_le_weight hx
    obtain ⟨j, rfl⟩ : ∃ j, k = j + 1 := ⟨k - 1, by omega⟩
    -- one rank pays for any depth
    rw [Matcher.need] at *
    rw [Nat.add_mul j, Goal.depth] at hneed
    rw [hr, Nat.add_sub_cancel]
    omega

end Within

/-! ## One step of each function -/

variable [DecidableEq K] [TokenKind K]

/-- **A budget suffices** if no goal within it uses it up. -/
def Suffices (m : Matcher K α) (ρ : m.grammar.Ranking) (span n : Nat) : Prop :=
  ∀ goal r k, m.Within ρ span n goal r k → m.outcome n goal r ≠ .exhausted

section Suffices

theorem Suffices.name (ih : m.Suffices ρ span n) (hspan : m.grammar.weight ≤ span)
    {x : String} (h : m.Within ρ span (n + 1) (.name x) r k) :
    m.outcome (n + 1) (.name x) r ≠ .exhausted := by
  rw [outcome, nonTerminal]
  split
  · exact Outcome.failed_ne_exhausted _
  · next head hx =>
    split
    · refine ih (.expression head 0) _ _ (h.enter hspan hx rfl ?_ (Nat.le_refl _))
      simp
    · refine ih (.rules head head.rules) _ _ (h.enter hspan hx rfl ?_ ?_)
      · simp
      · simp

theorem Suffices.rules (ih : m.Suffices ρ span n) {head : NonTerminal K α}
    {rules : List (Rule K α)}
    (h : m.Within ρ span (n + 1) (.rules head rules) r k) :
    m.outcome (n + 1) (.rules head rules) r ≠ .exhausted := by
  cases rules with
  | nil =>
    show Outcome.failed r ≠ .exhausted
    exact Outcome.failed_ne_exhausted r
  | cons rule rules =>
    rw [outcome, alternatives]
    have hrule := ih (.sequence rule.clauses) r k (h.same rfl
      (by simp [Rule.leftmost])
      (by simp only [Goal.depth, Rule.weightAll]; omega)
      (by simp only [Goal.weight, Goal.depth, Rule.weightAll]; omega))
    cases hs : m.sequence n rule.clauses r with
    | exhausted => exact absurd hs hrule
    | failed r' =>
      exact ih (.rules head rules) _ k (h.same rfl (by simp)
        (by simp only [Goal.depth, Rule.weightAll]; omega)
        (by simp only [Goal.weight, Goal.depth, Rule.weightAll]; omega))
    | matched ts r' => exact Outcome.matched_ne_exhausted _ _

theorem Suffices.sequence (ih : m.Suffices ρ span n) {cs : List (Clause K)}
    (h : m.Within ρ span (n + 1) (.sequence cs) r k) :
    m.outcome (n + 1) (.sequence cs) r ≠ .exhausted := by
  cases cs with
  | nil =>
    show Outcome.matched [] r ≠ .exhausted
    exact Outcome.matched_ne_exhausted [] r
  | cons c cs =>
    rw [outcome, Matcher.sequence]
    have hclause := ih (.clause c) r k (h.same rfl
      (by simp [Clause.leftmostSeq])
      (by simp only [Goal.depth, Clause.weightAll]; omega)
      (by simp only [Goal.weight, Goal.depth, Clause.weightAll]; omega))
    cases hc : m.clause n c r with
    | exhausted => exact absurd hc hclause
    | failed r' => exact Outcome.failed_ne_exhausted r'
    | matched ts r' =>
      have hatt : m.Attempt (.clause c) r (.matched ts r') :=
        attempt_of_matched hc
      -- if the clause takes no token it is nullable, and what can come first in
      -- the others can come first in all
      obtain ⟨k', hk'⟩ := h.after (.sequence cs) hatt.extends
        (fun hi => by
          have hnull := hatt.isNullable_of_still hi
          simp only [Goal.isNullable] at hnull
          simp [Clause.leftmostSeq, hnull])
        (by simp only [Goal.depth, Clause.weightAll]; omega)
        (by simp only [Goal.weight, Goal.depth, Clause.weightAll]; omega)
      rw [Outcome.bind_matched, Ne, Outcome.map_eq_exhausted_iff]
      exact ih _ _ _ hk'

theorem Suffices.choice (ih : m.Suffices ρ span n) {bs : List (Clause K)}
    (h : m.Within ρ span (n + 1) (.choice bs) r k) :
    m.outcome (n + 1) (.choice bs) r ≠ .exhausted := by
  cases bs with
  | nil =>
    show Outcome.failed r ≠ .exhausted
    exact Outcome.failed_ne_exhausted r
  | cons b bs =>
    rw [outcome, Matcher.choice]
    have hbranch := ih (.clause b) r k (h.same rfl
      (by simp [Clause.leftmostAny])
      (by simp only [Goal.depth, Clause.weightAll]; omega)
      (by simp only [Goal.weight, Goal.depth, Clause.weightAll]; omega))
    cases hb : m.clause n b r with
    | exhausted => exact absurd hb hbranch
    | failed r' =>
      exact ih (.choice bs) _ k (h.same rfl (by simp [Clause.leftmostAny])
        (by simp only [Goal.depth, Clause.weightAll]; omega)
        (by simp only [Goal.weight, Goal.depth, Clause.weightAll]; omega))
    | matched ts r' => exact Outcome.matched_ne_exhausted ts r'

theorem Suffices.iterations (ih : m.Suffices ρ span n) {b : Clause K}
    (h : m.Within ρ span (n + 1) (.iterations b) r k) :
    m.outcome (n + 1) (.iterations b) r ≠ .exhausted := by
  rw [outcome, Matcher.iterations]
  have hbody := ih (.clause b) r k (h.same rfl (by simp)
    (by simp) (by simp))
  cases hb : m.clause n b r with
  | exhausted => exact absurd hb hbody
  | failed r' => exact Outcome.matched_ne_exhausted _ _
  | matched ts r' =>
    have hatt : m.Attempt (.clause b) r (.matched ts r') :=
      attempt_of_matched hb
    dsimp only
    split
    · -- further iterations are tried only after a token
      next hlt =>
      rw [Ne, Outcome.map_eq_exhausted_iff]
      exact ih (.iterations b) _ _ (h.later hatt.extends hlt (Nat.le_refl _))
    · exact Outcome.matched_ne_exhausted _ _

theorem Suffices.clause (ih : m.Suffices ρ span n) {c : Clause K}
    (h : m.Within ρ span (n + 1) (.clause c) r k) :
    m.outcome (n + 1) (.clause c) r ≠ .exhausted := by
  cases ha : m.style.allows c with
  | false =>
    rw [outcome, clause_refused ha]
    exact Outcome.failed_ne_exhausted _
  | true =>
    cases c with
    | token kind d =>
      rw [outcome, Matcher.clause, if_pos ha, Ne, Outcome.map_eq_exhausted_iff,
        Matcher.token]
      split
      · split
        · exact Outcome.matched_ne_exhausted _ _
        · exact Outcome.failed_ne_exhausted _
      · exact Outcome.failed_ne_exhausted _
    | reference x d =>
      rw [outcome, Matcher.clause, if_pos ha]
      have hx := ih (.name x) r k (h.same rfl (by simp [Clause.leftmost])
        (by simp [Clause.weight])
        (by simp [Clause.weight]))
      rw [outcome, Ne, Outcome.map_eq_exhausted_iff] at hx
      rw [Ne, Outcome.map_eq_exhausted_iff]
      exact hx
    | group cs =>
      rw [outcome, Matcher.clause, if_pos ha]
      exact ih (.sequence cs) r k (h.same rfl (by simp [Clause.leftmost])
        (by simp [Clause.weight])
        (by simp [Clause.weight]))
    | choice bs =>
      rw [outcome, Matcher.clause, if_pos ha]
      exact ih (.choice bs) r k (h.same rfl (by simp [Clause.leftmost])
        (by simp [Clause.weight])
        (by simp [Clause.weight]))
    | optional b =>
      rw [outcome, Matcher.clause, if_pos ha]
      have hbody := ih (.clause b) r k (h.same rfl (by simp [Clause.leftmost])
        (by simp [Clause.weight])
        (by simp [Clause.weight]))
      rw [outcome] at hbody
      rw [Ne, Outcome.map_eq_exhausted_iff]
      cases hb : m.clause n b r with
      | exhausted => exact absurd hb hbody
      | failed r' => exact Outcome.matched_ne_exhausted _ _
      | matched ts r' => exact Outcome.matched_ne_exhausted ts r'
    | star b =>
      rw [outcome, Matcher.clause, if_pos ha]
      rw [Ne, Outcome.map_eq_exhausted_iff]
      exact ih (.iterations b) r k (h.same rfl (by simp [Clause.leftmost])
        (by simp [Clause.weight])
        (by simp [Clause.weight]))
    | plus b =>
      rw [outcome, Matcher.clause, if_pos ha]
      have hbody := ih (.clause b) r k (h.same rfl (by simp [Clause.leftmost])
        (by simp [Clause.weight])
        (by simp [Clause.weight]))
      cases hb : m.clause n b r with
      | exhausted => exact absurd hb hbody
      | failed r' => exact Outcome.failed_ne_exhausted r'
      | matched ts r' =>
        have hatt : m.Attempt (.clause b) r (.matched ts r') :=
          attempt_of_matched hb
        obtain ⟨k', hk'⟩ := h.after (.iterations b) hatt.extends
          (fun _ => by simp [Clause.leftmost])
          (by simp [Clause.weight])
          (by simp [Clause.weight])
        rw [Outcome.bind_matched, Ne, Outcome.map_eq_exhausted_iff]
        exact ih _ _ _ hk'

theorem Suffices.expression (ih : m.Suffices ρ span n) {head : NonTerminal K α}
    {least : Nat} (h : m.Within ρ span (n + 1) (.expression head least) r k) :
    m.outcome (n + 1) (.expression head least) r ≠ .exhausted := by
  rw [outcome, Ne, Outcome.map_eq_exhausted_iff, Matcher.expression]
  have hoperand := ih (.operand head) r k
    (h.same rfl (by simp) (by simp) (by simp))
  rw [outcome, Ne, Outcome.map_eq_exhausted_iff] at hoperand
  cases hl : m.operand n head r with
  | exhausted => exact absurd hl hoperand
  | failed r' => exact Outcome.failed_ne_exhausted r'
  | matched left r' =>
    have hatt : m.Attempt (.operand head) r (.matched [left] r') :=
      attempt_of_matched (by rw [outcome, hl, Outcome.map_matched])
    obtain ⟨k', hk'⟩ := h.after (.climb head least left) hatt.extends
      (fun _ => by simp) (by simp) (by simp)
    have hclimb := ih _ _ _ hk'
    rw [outcome, Ne, Outcome.map_eq_exhausted_iff] at hclimb
    exact hclimb

theorem Suffices.climb (ih : m.Suffices ρ span n) {head : NonTerminal K α}
    {least : Nat} {left : Tree K α}
    (h : m.Within ρ span (n + 1) (.climb head least left) r k) :
    m.outcome (n + 1) (.climb head least left) r ≠ .exhausted := by
  rw [outcome, Ne, Outcome.map_eq_exhausted_iff, Matcher.climb]
  split
  · exact Outcome.matched_ne_exhausted _ _
  · next t op ht =>
    have hext := Extends.advance_trailing ht
    split
    · have hclimb := ih (.climb head least
        (operatorTree head op [left, .leaf t false])) _ _
        (h.later hext (by simp) (by simp))
      rw [outcome, Ne, Outcome.map_eq_exhausted_iff] at hclimb
      exact hclimb
    · have hright := ih (.expression head op.operation.threshold) _ _
        (h.later hext (by simp) (by simp))
      rw [outcome, Ne, Outcome.map_eq_exhausted_iff] at hright
      split
      · next hr => exact absurd hr hright
      · exact Outcome.matched_ne_exhausted _ _
      · next right r' hr =>
        have hatt : m.Attempt (.expression head op.operation.threshold)
            r.advance (.matched [right] r') :=
          attempt_of_matched (by rw [outcome, hr, Outcome.map_matched])
        have hext' := hext.trans hatt.extends
        have hle := (Outcome.all_matched.mp hatt.extends).le
        rw [Run.index_advance] at hle
        have hclimb := ih (.climb head least
          (operatorTree head op [left, .leaf t false, right])) _ _
          (h.later hext' (by omega) (by simp))
        rw [outcome, Ne, Outcome.map_eq_exhausted_iff] at hclimb
        exact hclimb
    · exact Outcome.matched_ne_exhausted _ _

theorem Suffices.operand (ih : m.Suffices ρ span n) {head : NonTerminal K α}
    (h : m.Within ρ span (n + 1) (.operand head) r k) :
    m.outcome (n + 1) (.operand head) r ≠ .exhausted := by
  have hrules {r' : Run K} (hr : r'.index = r.index) :
      m.alternatives n head head.rules r' ≠ .exhausted := by
    have := ih (.rules head head.rules) r' k
      (h.same hr (by simp) (by simp) (by simp))
    rwa [outcome, Ne, Outcome.map_eq_exhausted_iff] at this
  rw [outcome, Ne, Outcome.map_eq_exhausted_iff, Matcher.operand]
  split
  · exact hrules (by simp)
  · next t op ht =>
    have hright := ih (.expression head op.precedence) _ _
      (h.later (Extends.advance_leading ht) (by simp) (by simp))
    rw [outcome, Ne, Outcome.map_eq_exhausted_iff] at hright
    cases hr : m.expression n head op.precedence r.advance with
    | exhausted => exact absurd hr hright
    | failed r' => exact hrules (by simp)
    | matched right r' => exact Outcome.matched_ne_exhausted _ _

end Suffices

theorem suffices_all (ρ : m.grammar.Ranking) (hspan : m.grammar.weight ≤ span)
    (n : Nat) : m.Suffices ρ span n := by
  induction n with
  | zero => exact fun _ _ _ h => absurd rfl h.ne_zero
  | succ n ih =>
    intro goal r k h
    cases goal with
    | name x => exact ih.name hspan h
    | rules head rules => exact ih.rules h
    | sequence cs => exact ih.sequence h
    | clause c => exact ih.clause h
    | choice bs => exact ih.choice h
    | iterations b => exact ih.iterations h
    | expression head least => exact ih.expression h
    | climb head least left => exact ih.climb h
    | operand head => exact ih.operand h

/-! ## A budget that suffices -/

omit [DecidableEq K] [TokenKind K] in
/-- What is within the largest budget of all ranks and indices. -/
theorem Within.of_bound (ρ : m.grammar.Ranking) (goal : Goal K α) (r : Run K)
    (hn : m.grammar.stepBound m.tokens.length goal.weight ≤ n) :
    m.Within ρ (max (m.grammar.weight + 5) goal.weight) n goal r
      m.grammar.size where
  rank x _ := ρ.rank_le x
  le := Nat.le_refl _
  weight := Nat.le_max_right _ _
  need := by
    rw [Grammar.stepBound, Nat.mul_assoc, Nat.add_mul, Nat.one_mul,
      Nat.add_mul m.grammar.size, Nat.one_mul, ← Nat.add_assoc] at hn
    have hdepth := Nat.le_trans goal.depth_le_weight
      (Nat.le_max_right (m.grammar.weight + 5) goal.weight)
    have htokens := Nat.mul_le_mul_right
      ((m.grammar.size + 1) * max (m.grammar.weight + 5) goal.weight)
      (Nat.sub_le m.tokens.length r.index)
    rw [Matcher.need]
    rw [Nat.add_mul m.grammar.size, Nat.one_mul] at *
    omega

/-- **A budget that suffices gives the one way an attempt ends.** -/
theorem exists_outcome (h : m.grammar.isLeftRecursive = false)
    (goal : Goal K α) (r : Run K) :
    ∃ o, o ≠ .exhausted ∧ m.Attempt goal r o ∧
      ∀ n, m.grammar.stepBound m.tokens.length goal.weight ≤ n →
        m.outcome n goal r = o := by
  obtain ⟨ρ⟩ := Grammar.nonempty_ranking h
  have hne {n : Nat}
      (hn : m.grammar.stepBound m.tokens.length goal.weight ≤ n) :
      m.outcome n goal r ≠ .exhausted :=
    suffices_all ρ (by omega) n goal r _ (Within.of_bound ρ goal r hn)
  have hatt {n : Nat}
      (hn : m.grammar.stepBound m.tokens.length goal.weight ≤ n) :
      m.Attempt goal r (m.outcome n goal r) :=
    attempt_of_outcome rfl (hne hn)
  exact ⟨_, hne (Nat.le_refl _), hatt (Nat.le_refl _),
    fun n hn => (hatt hn).unique (hatt (Nat.le_refl _))⟩

omit [DecidableEq K] [TokenKind K] in
/-- The budget of a matcher is the one for a name. -/
theorem budget_eq_stepBound (m : Matcher K α) (x : String) :
    m.budget =
      m.grammar.stepBound m.tokens.length (Goal.name x : Goal K α).weight := by
  simp [budget, Grammar.stepBound]

/-- Without left recursion, matching a name against all tokens ends. -/
theorem matchAll_ne_exhausted (h : m.grammar.isLeftRecursive = false)
    (start : String) : m.matchAll start ≠ .exhausted := by
  obtain ⟨o, ho, _, hn⟩ := exists_outcome h (.name start) .start
  have hbudget := hn m.budget (Nat.le_of_eq (m.budget_eq_stepBound start).symm)
  rw [outcome] at hbudget
  rw [matchAll]
  cases hm : m.nonTerminal m.budget start .start with
  | exhausted =>
    rw [hm] at hbudget
    exact absurd hbudget.symm ho
  | failed r => exact Outcome.failed_ne_exhausted r
  | matched tree r =>
    rw [Outcome.bind_matched]
    split
    · exact Outcome.matched_ne_exhausted _ _
    · exact Outcome.failed_ne_exhausted _

/-- Without left recursion a parse comes to an answer. -/
theorem exists_answer (h : m.grammar.isLeftRecursive = false) (start : String) :
    ∃ answer, m.parse start = .ok answer := by
  have hne := matchAll_ne_exhausted h start
  rw [parse]
  split
  · cases hm : m.matchAll start with
    | exhausted => exact absurd hm hne
    | failed r => exact ⟨_, rfl⟩
    | matched tree r => exact ⟨_, rfl⟩
  · exact ⟨_, rfl⟩

end Matcher

/-- **Matching without left recursion comes to an end.** Whatever the style, the
tokens, the goal and the run, all budgets from `Grammar.stepBound` on give one
and the same answer, and parsing from any name has an answer. A name is of
weight one, so the bound for parsing depends on the grammar and the number of
tokens alone. -/
theorem Matcher.answers_of_not_isLeftRecursive [DecidableEq K] [TokenKind K]
    {g : Grammar K α} (h : g.isLeftRecursive = false) (style : Style)
    (tokens : TokenList K) :
    let m : Matcher K α := ⟨g, style, tokens⟩
    (∀ goal r, ∃ o, o ≠ .exhausted ∧
      ∀ n, g.stepBound tokens.length goal.weight ≤ n → m.outcome n goal r = o) ∧
    ∀ start, ∃ answer, m.parse start = .ok answer := by
  intro m
  refine ⟨fun goal r => ?_, fun start => ?_⟩
  · obtain ⟨o, ho, _, hn⟩ := exists_outcome (m := m) h goal r
    exact ⟨o, ho, hn⟩
  · exact exists_answer (m := m) h start

namespace Script

/-- A grammar of lists of sums. What stands before a list may be missing, an
operand may be a list in parentheses, and `sum` has operators before, after and
between its operands. -/
def sums : Grammar ScriptKind Unit where
  start := "list"
  nonTerminals :=
    [⟨"list",
      [.ofClauses "list"
        [.reference "marks" false, .reference "sum" false,
          .star (.group [.token .comma true, .reference "sum" false])]
        fun _ => ()], []⟩,
      ⟨"marks",
      [.ofClauses "marks" [.star (.token .semi false)] fun _ => ()], []⟩,
      ⟨"sum",
      [.ofClauses "sum" [.token .num false] fun _ => (),
        .ofClauses "sum"
          [.token .lparen true, .reference "list" false, .token .rparen true]
          fun _ => ()],
      [.ofKind .plus (.infixOp 10 .left) fun _ => (),
        .ofKind .minus (.prefixOp 20) fun _ => (),
        .ofKind .bang (.postfixOp 30) fun _ => ()]⟩]
  names_nodup := by decide

/-- The tokens of `; 1 + - 2 !, (3)`. -/
def twoSums : TokenList ScriptKind :=
  .withStop
    [.unplaced .semi ";", .unplaced .num "1", .unplaced .plus "+",
      .unplaced .minus "-", .unplaced .num "2", .unplaced .bang "!",
      .unplaced .comma ",", .unplaced .lparen "(", .unplaced .num "3",
      .unplaced .rparen ")"] .start

/-- The answer for the list of two sums is a tree of all its tokens. -/
theorem sums_answers :
    sums.isLeftRecursive = false ∧
      (∃ o, o ≠ .exhausted ∧ ∀ n, sums.stepBound twoSums.length 1 ≤ n →
        (Matcher.mk sums .ebnf twoSums).outcome n (.name "list") .start = o) ∧
      ∃ answer, (Matcher.mk sums .ebnf twoSums).parse "list" = .ok answer ∧
        answer.map Tree.tokens = .ok twoSums.toList := by
  have h : sums.isLeftRecursive = false := by decide +kernel
  obtain ⟨hgoals, hparses⟩ :=
    Matcher.answers_of_not_isLeftRecursive h .ebnf twoSums
  obtain ⟨answer, hanswer⟩ := hparses "list"
  refine ⟨h, hgoals (.name "list") .start, answer, hanswer, ?_⟩
  have heval : ((Matcher.mk sums .ebnf twoSums).parse "list").map
      (·.map Tree.tokens) = .ok (.ok twoSums.toList) := by rfl
  rw [hanswer] at heval
  exact Except.ok.inj heval

end Script

end Descent
