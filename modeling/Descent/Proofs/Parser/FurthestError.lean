import Descent.Proofs.Matching.Coverage
import Descent.Proofs.Parser.Build
import Descent.Script

/-!
# When a parser reports where matching got furthest

A built parser reports a failure where matching got furthest, with one exception
(`Builder.furthest_iff_not_barren`). Validation does not ask that a head has an
operand: an operator after or between operands is enough to declare a name.
Where such a barren non-terminal is entered there is nothing to try and nothing
to expect, and nothing is noted. The parse is then reported at an earlier
failure, or at the first token if there is none.
-/

namespace Descent

variable {K α : Type} [DecidableEq K] [TokenKind K]

/-- **When a built parser reports a failure where matching got furthest.** The
index that is reported is at least every index that the run has been at exactly
if no barren non-terminal was entered beyond it. -/
theorem Builder.furthest_iff_not_barren {b : Builder K α} {style : Style}
    {root : String} {p : Parser K α} (hb : b.build style root = .ok (.ok p))
    {tokens : TokenList K} {start : String} {e : UnexpectedToken K}
    (h : (p.matcher tokens).parse start = .ok (.error (.unexpected e))) :
    ∃ r, (p.matcher tokens).matchAll start = .failed r ∧
      e = (p.matcher tokens).unexpected r ∧
      ((∀ event ∈ r.trace, event.place ≤ r.errorIndex) ↔
        ∀ i x, .enter i x ∈ r.trace → p.grammar.Barren x →
          i ≤ r.errorIndex) := by
  obtain ⟨_, r, hr, he⟩ := Matcher.parse_eq_unexpected_iff.mp h
  have hg : (p.matcher tokens).grammar.HasBranches :=
    Builder.hasBranches_of_build hb
  exact ⟨r, hr, he, Matcher.place_le_errorIndex_iff hg hr⟩

namespace Script

/-- Productions of a sum without an operand: `e` is declared by an operator
between operands alone. -/
def sumOfNothing : Builder ScriptKind Unit :=
  ((Builder.empty.withLexer (.ready lexicon.lexer)).production "s" "s : NUM e"
    fun _ => ()).production "e" "e : %infix PLUS 10" fun _ => ()

/-- The tokens of `1`. -/
def one : TokenList ScriptKind := .withStop [.unplaced .num "1"] .start

/-- The parser of sums without operands reports `1` at its first token, which it
has taken. -/
theorem exists_sumOfNothing :
    ∃ p r, sumOfNothing.build .ebnf "s" = .ok (.ok p) ∧
      p.grammar.contains "s" = true ∧
      (p.matcher one).matchAll "s" = .failed r ∧ r.errorIndex = 0 ∧
      .advance 0 ∈ r.trace := by
  have heval : (match sumOfNothing.build .ebnf "s" with
      | .ok (.ok p) => p.grammar.contains "s" &&
        match (p.matcher one).matchAll "s" with
        | .failed r => r.errorIndex == 0 && decide (.advance 0 ∈ r.trace)
        | _ => false
      | _ => false) = true := by
    decide +kernel
  split at heval
  · next p hp =>
    rw [Bool.and_eq_true] at heval
    obtain ⟨hstart, heval⟩ := heval
    split at heval
    · next r hr =>
      simp only [Bool.and_eq_true, beq_iff_eq, decide_eq_true_eq] at heval
      exact ⟨p, r, hp, hstart, hr, heval⟩
    · cases heval
  · cases heval

theorem sumOfNothing_furthest_iff :
    ∃ p e r, sumOfNothing.build .ebnf "s" = .ok (.ok p) ∧
      (p.matcher one).parse "s" = .ok (.error (.unexpected e)) ∧
      (p.matcher one).matchAll "s" = .failed r ∧
      ((∀ event ∈ r.trace, event.place ≤ r.errorIndex) ↔
        ∀ i x, .enter i x ∈ r.trace → p.grammar.Barren x →
          i ≤ r.errorIndex) := by
  obtain ⟨p, r, hp, hstart, hr, _⟩ := exists_sumOfNothing
  have hparse := Matcher.parse_eq_unexpected_iff.mpr ⟨hstart, r, hr, rfl⟩
  obtain ⟨r', hr', _, hiff⟩ := Builder.furthest_iff_not_barren hp hparse
  exact ⟨p, _, r', hp, hparse, hr', hiff⟩

/-- **A failure that is not reported where matching got furthest**: the first
token was taken, and is what is reported as unexpected. -/
theorem sumOfNothing_not_furthest :
    ∃ p e r, sumOfNothing.build .ebnf "s" = .ok (.ok p) ∧
      (p.matcher one).parse "s" = .ok (.error (.unexpected e)) ∧
      (p.matcher one).matchAll "s" = .failed r ∧
      e = (p.matcher one).unexpected r ∧
      .advance 0 ∈ r.trace ∧ ¬ 0 < r.errorIndex := by
  obtain ⟨p, r, hp, hstart, hr, hindex, hadvance⟩ := exists_sumOfNothing
  have hparse := Matcher.parse_eq_unexpected_iff.mpr ⟨hstart, r, hr, rfl⟩
  exact ⟨p, _, r, hp, hparse, hr, rfl, hadvance, by omega⟩

end Script

end Descent
