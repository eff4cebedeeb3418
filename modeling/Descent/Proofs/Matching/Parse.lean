import Descent.Matching.Parse
import Descent.Proofs.Matching.Frame

/-!
# A parse is an attempt at the start

A parse of a declared name attempts the name from the first token. It gives the
tree of a match that takes all tokens; it fails where the attempt fails, or
where a match ends that leaves tokens over.
-/

namespace Descent.Matcher

variable {K α : Type} [DecidableEq K] [TokenKind K] {m : Matcher K α}
  {start : String} {tree : Tree K α} {r : Run K}

/-- A match against all tokens is a match that takes them all. -/
theorem attempt_of_matchAll_matched (h : m.matchAll start = .matched tree r) :
    m.Attempt (.name start) .start (.matched [tree] r) ∧
      m.tokens.length ≤ r.index := by
  rw [matchAll] at h
  cases hm : m.nonTerminal m.budget start .start with
  | exhausted => simp [hm] at h
  | failed r' => simp [hm] at h
  | matched tree' r' =>
    rw [hm, Outcome.bind_matched] at h
    split at h
    · next hlen =>
      obtain ⟨rfl, rfl⟩ := Outcome.matched.injEq .. ▸ h
      exact ⟨attempt_of_nonTerminal_matched hm, hlen⟩
    · cases h

/-- **A parse fails** where the attempt at the start fails, or where its match
ends and tokens are left over. -/
theorem attempt_of_matchAll_failed (h : m.matchAll start = .failed r) :
    m.Attempt (.name start) .start (.failed r) ∨
      ∃ tree r', m.Attempt (.name start) .start (.matched [tree] r') ∧
        r'.index < m.tokens.length ∧ r = r'.reach := by
  rw [matchAll] at h
  cases hm : m.nonTerminal m.budget start .start with
  | exhausted => simp [hm] at h
  | failed r' =>
    rw [hm, Outcome.bind_failed] at h
    obtain rfl := Outcome.failed.injEq .. ▸ h
    exact .inl (attempt_of_nonTerminal_failed hm)
  | matched tree' r' =>
    rw [hm, Outcome.bind_matched] at h
    split at h
    · cases h
    · next hlen =>
      obtain rfl := Outcome.failed.injEq .. ▸ h
      exact .inr ⟨tree', r', attempt_of_nonTerminal_matched hm,
        Nat.lt_of_not_le hlen, rfl⟩

/-- Matching against all tokens is done in moves. -/
theorem movesTo_matchAll (m : Matcher K α) (start : String) :
    (m.matchAll start).All (Run.start.MovesTo m.tokens) := by
  cases hm : m.matchAll start with
  | exhausted => trivial
  | failed r =>
    rcases attempt_of_matchAll_failed hm with hatt | ⟨_, r', hatt, _, rfl⟩
    · exact hatt.movesTo
    · exact Run.MovesTo.trans hatt.movesTo (.of_moves (.reach r'))
  | matched tree r => exact (attempt_of_matchAll_matched hm).1.movesTo

/-- A tree is parsed if the start is declared and matches all tokens. -/
theorem parse_eq_tree_iff :
    m.parse start = .ok (.ok tree) ↔
      m.grammar.contains start = true ∧
        ∃ r, m.matchAll start = .matched tree r := by
  unfold parse
  cases m.grammar.contains start with
  | false => simp
  | true => cases m.matchAll start <;> simp

/-- An unexpected token is reported if the start is declared and does not match
all tokens; it is the furthest failure of the run. -/
theorem parse_eq_unexpected_iff {e : UnexpectedToken K} :
    m.parse start = .ok (.error (.unexpected e)) ↔
      m.grammar.contains start = true ∧
        ∃ r, m.matchAll start = .failed r ∧ e = m.unexpected r := by
  unfold parse
  cases m.grammar.contains start with
  | false => simp
  | true => cases m.matchAll start <;> simp [eq_comm]

/-- An output is that of the tree of a parse. -/
theorem evaluate_eq_output_iff {x : α} :
    m.evaluate start = .ok (.ok x) ↔
      ∃ tree, m.parse start = .ok (.ok tree) ∧ tree.reduce = .ok x := by
  unfold evaluate
  cases m.parse start with
  | error fault => simp [bind, Except.bind]
  | ok answer =>
    cases answer with
    | error e => simp [bind, Except.bind, pure, Except.pure]
    | ok tree =>
      cases hr : tree.reduce <;>
        simp [hr, bind, Except.bind, pure, Except.pure]

end Descent.Matcher
