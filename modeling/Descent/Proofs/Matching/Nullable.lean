import Descent.Proofs.Matching.Parse
import Descent.Proofs.Matching.Progress
import Descent.Proofs.Matching.Termination
import Mathlib.Tactic.TFAE

/-!
# What is nullable never fails to match

Nullable names are computed so that the check for left recursion can look past
them. What they are for the matcher is more than the computation says: a nullable
name can match nothing, and therefore it matches at every index of every token
list, whatever stands there. For where it does not match something, all its rules
have failed, one of them consists of clauses that can all match nothing, and such a
clause has no way to fail; options and repetitions give up what they have begun.

The proof reads this backwards: by induction on the attempt, what fails is not
nullable (`Attempt.isNullable_of_failed`). Together with
`Attempt.isNullable_of_still`, by which what matches without a token is nullable,
the names are exactly those of which the matcher accepts the empty token list
(`Grammar.nullable_exact`).
-/

namespace Descent

variable {K α : Type} [DecidableEq K] [TokenKind K]

namespace Matcher

variable {m : Matcher K α}

/-- **What fails is not nullable**, if all clauses are matched. -/
theorem Attempt.isNullable_of_failed {goal : Goal K α} {r : Run K}
    {o : Outcome K (List (Tree K α))} (h : m.Attempt goal r o)
    (hstyle : m.style = .ebnf) :
    o.Ensures
      (fun _ => goal.isNullable m.grammar.nullable.contains = false)
      fun _ _ => True := by
  induction h with
  | rule | done | token | optional | optionalNone | branch | stop | still
  | noOperator | noRight | prefixed => trivial
  | noRule | noBranch | noToken => rfl
  | refused hrefused => simp [hstyle, Style.allows] at hrefused
  | undeclared hx =>
    refine eq_false_of_ne_true fun hnull => ?_
    obtain ⟨n, hn, _⟩ := Grammar.isNullable_of_contains_nullable hnull
    cases hx.symm.trans hn
  | head hx _ _ ih | plain hx _ _ ih =>
    refine ih.imp (fun _ hnot => eq_false_of_ne_true fun hnull => ?_) fun _ _ h => h
    obtain ⟨n, hn, hnull⟩ := Grammar.isNullable_of_contains_nullable hnull
    obtain rfl := Option.some.inj (hx.symm.trans hn)
    cases hnot.symm.trans hnull
  | nextRule _ _ ih ih' =>
    refine ih'.imp (fun _ hnot => ?_) fun _ _ h => h
    have hrule := Outcome.ensures_failed.mp ih
    simp only [Goal.isNullable] at hrule hnot
    rw [Goal.isNullable, List.any_cons, Rule.isNullable, hrule, hnot]
    rfl
  | nextBranch _ _ ih ih' =>
    refine ih'.imp (fun _ hnot => ?_) fun _ _ h => h
    have hbranch := Outcome.ensures_failed.mp ih
    simp only [Goal.isNullable] at hbranch hnot
    rw [Goal.isNullable, Clause.anyNullable, hbranch, hnot]
    rfl
  | stuck _ ih =>
    have hc := Outcome.ensures_failed.mp ih
    simp only [Goal.isNullable] at hc
    simp [Clause.allNullable, hc]
  | andThen _ _ _ ih =>
    refine Outcome.ensures_map.mpr (ih.imp (fun _ hnot => ?_) fun _ _ h => h)
    simp only [Goal.isNullable] at hnot
    simp [Clause.allNullable, hnot]
  | reference _ ih => exact Outcome.ensures_map.mpr ih
  | group _ _ ih | choice _ _ ih => exact ih
  | star _ _ ih | again _ _ _ _ ih | plus _ _ _ _ ih =>
    -- iterations do not fail
    exact Outcome.ensures_map.mpr (ih.imp (fun _ hnot => by cases hnot)
      fun _ _ h => h)
  | plusNone _ _ ih | noOperand _ ih => exact ih
  | fromOperand _ _ _ ih => exact ih.imp (fun _ hnot => by cases hnot) fun _ _ h => h
  | postfixed _ _ _ ih | infixed _ _ _ _ _ ih | noPrefix _ _ ih
  | prefixNone _ _ _ _ ih => exact ih

variable {x : String} {r : Run K}

/-- A nullable name never fails to match. -/
theorem nonTerminal_ne_failed (hstyle : m.style = .ebnf)
    (hnull : x ∈ m.grammar.nullable) (steps : Nat) (r r' : Run K) :
    m.nonTerminal steps x r ≠ .failed r' := by
  intro hfailed
  have hattempt := attempt_of_nonTerminal_failed hfailed
  have hnot := Outcome.ensures_failed.mp (hattempt.isNullable_of_failed hstyle)
  cases hnot.symm.trans (List.contains_iff_mem.mpr hnull)

/-- What never fails matches, since matching comes to an end. -/
theorem exists_matched_of_ne_failed (h : m.grammar.isLeftRecursive = false)
    (hne : ∀ steps r', m.nonTerminal steps x r ≠ .failed r') :
    ∃ enough, ∀ steps, enough ≤ steps →
      ∃ tree r', m.nonTerminal steps x r = .matched tree r' := by
  obtain ⟨o, ho, _, hsteps⟩ := exists_outcome h (.name x) r
  refine ⟨m.grammar.stepBound m.tokens.length (Goal.name x : Goal K α).weight,
    fun steps hn => ?_⟩
  have hout := hsteps steps hn
  cases hm : m.nonTerminal steps x r with
  | exhausted =>
    rw [outcome, hm] at hout
    exact absurd hout.symm ho
  | failed r' => exact absurd hm (hne steps r')
  | matched tree r' => exact ⟨tree, r', rfl⟩

/-- What matches with steps enough does not fail with fewer. -/
theorem ne_failed_of_exists_matched
    (h : ∃ enough, ∀ steps, enough ≤ steps →
      ∃ tree r', m.nonTerminal steps x r = .matched tree r')
    (steps : Nat) (r' : Run K) : m.nonTerminal steps x r ≠ .failed r' := by
  intro hfailed
  obtain ⟨enough, h⟩ := h
  obtain ⟨tree, r'', hmatched⟩ := h enough (Nat.le_refl _)
  cases (attempt_of_nonTerminal_failed hfailed).unique
    (attempt_of_nonTerminal_matched hmatched)

/-- A name that matches when there are no tokens is nullable. -/
theorem mem_nullable_of_parse (hempty : m.tokens.length = 0) {tree : Tree K α}
    (h : m.parse x = .ok (.ok tree)) : x ∈ m.grammar.nullable := by
  obtain ⟨_, r, hmatch⟩ := parse_eq_tree_iff.mp h
  obtain ⟨hattempt, _⟩ := attempt_of_matchAll_matched hmatch
  have hbound := (Outcome.all_matched.mp hattempt.extends).bound
  rw [Run.index_start, hempty] at hbound
  exact List.contains_iff_mem.mp
    (Outcome.ensures_matched.mp hattempt.isNullable_of_still
      (Nat.le_zero.mp hbound))

/-- A declared name that does not fail when there are no tokens matches them all. -/
theorem exists_parse_of_ne_failed (h : m.grammar.isLeftRecursive = false)
    (hx : m.grammar.contains x = true) (hempty : m.tokens.length = 0)
    (hne : ∀ steps r', m.nonTerminal steps x .start ≠ .failed r') :
    ∃ tree, m.parse x = .ok (.ok tree) := by
  have hexhausted := matchAll_ne_exhausted h x
  rw [matchAll] at hexhausted
  cases hm : m.nonTerminal m.budget x .start with
  | exhausted =>
    rw [hm] at hexhausted
    exact absurd rfl hexhausted
  | failed r' => exact absurd hm (hne _ r')
  | matched tree r' =>
    refine ⟨tree, parse_eq_tree_iff.mpr ⟨hx, r', ?_⟩⟩
    rw [matchAll, hm, Outcome.bind_matched, hempty]
    exact if_pos (Nat.zero_le _)

end Matcher

/-- **Nullable names are what the matcher can match nothing for.** In a grammar
without left recursion, and for a declared name, it comes to the same that the name
is nullable, that it matches the empty token list, that it never fails, in any run
over any token list, and that with steps enough it matches there. In every grammar
the passes come to an end, with one that adds nothing; and the names that they have
found are the least set that contains a non-terminal whenever one of its rules can
match nothing by the set. -/
theorem Grammar.nullable_exact (g : Grammar K α) :
    (g.isLeftRecursive = false → ∀ x, g.contains x = true →
      [x ∈ g.nullable,
        ∃ tree, (⟨g, .ebnf, .empty⟩ : Matcher K α).parse x = .ok (.ok tree),
        ∀ (tokens : TokenList K) (r : Run K) (steps : Nat) (r' : Run K),
          (⟨g, .ebnf, tokens⟩ : Matcher K α).nonTerminal steps x r ≠ .failed r',
        ∀ (tokens : TokenList K) (r : Run K), ∃ enough, ∀ steps, enough ≤ steps →
          ∃ tree r', (⟨g, .ebnf, tokens⟩ : Matcher K α).nonTerminal steps x r =
            .matched tree r'].TFAE) ∧
    (∀ passes, g.size < passes → g.nullableFrom passes [] = g.nullable) ∧
    g.nullablePass g.nullable = g.nullable ∧
    (∀ n ∈ g.nonTerminals,
      n.isNullable g.nullable.contains = true → n.name ∈ g.nullable) ∧
    ∀ p : String → Bool,
      (∀ n ∈ g.nonTerminals, n.isNullable p = true → p n.name = true) →
      ∀ x ∈ g.nullable, p x = true := by
  refine ⟨fun h x hx => ?_, fun _ => nullableFrom_eq_nullable,
    nullablePass_of_closed g.nullable_closed, g.nullable_closed,
    fun p hp x hx => nullable_induction (P := (p · = true)) (fun n hn hnull => ?_) hx⟩
  · tfae_have 1 → 3 := fun hnull tokens r steps r' =>
      Matcher.nonTerminal_ne_failed rfl hnull steps r r'
    tfae_have 3 → 4 := fun hne tokens r =>
      Matcher.exists_matched_of_ne_failed h (hne tokens r)
    tfae_have 4 → 3 := fun hmatched tokens r =>
      Matcher.ne_failed_of_exists_matched (hmatched tokens r)
    tfae_have 3 → 2 := fun hne =>
      Matcher.exists_parse_of_ne_failed h hx rfl (hne .empty .start)
    tfae_have 2 → 1 := fun ⟨_, htree⟩ => Matcher.mem_nullable_of_parse rfl htree
    tfae_finish
  · exact hp n hn (by simpa using hnull)

namespace Script

/-- The name of what may be missing before a list matches anywhere, though no mark
stands there. -/
theorem sums_nullable :
    sums.isLeftRecursive = false ∧ sums.contains "marks" = true ∧
      "marks" ∈ sums.nullable ∧
      ∀ (tokens : TokenList ScriptKind) (r : Run ScriptKind),
        ∃ enough, ∀ steps, enough ≤ steps → ∃ tree r',
          (⟨sums, .ebnf, tokens⟩ : Matcher ScriptKind Unit).nonTerminal steps
            "marks" r = .matched tree r' := by
  have h : sums.isLeftRecursive = false := by decide +kernel
  have hmarks : sums.contains "marks" = true := by decide +kernel
  have hnull : "marks" ∈ sums.nullable := by decide +kernel
  obtain ⟨hall, _⟩ := Grammar.nullable_exact sums
  exact ⟨h, hmarks, hnull, ((hall h "marks" hmarks).out 0 3).mp hnull⟩

end Script

end Descent
