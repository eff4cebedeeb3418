import Descent.Proofs.Parser.Build
import Descent.Proofs.RuleText.ReadBack
import Descent.Script

/-!
# Which rules of a parser are read back from their display

The rules of a parser come from rule texts, and they are displayed as rule texts.
What is displayed for a rule is never read as another rule, and as far as places
in it fit their counters it is read as that rule, with one exception
(`Builder.parse_display_iff`). A text can put a suffix on parentheses around a
clause that has a suffix, as in `(NUM?)*`. Parentheses around a single clause are
not kept, so the rule is displayed as `NUM?*`, and the notation allows one suffix
on an atom.
-/

namespace Descent

variable {K α : Type} [TokenKind K] {b : Builder K α} {start : String}
  {g : Grammar K α} {errors : List BuildError}

/-- **All rules that are extracted are written**, and they are rules for names. -/
theorem Builder.isWritten_of_extract (h : b.extract start = .ok (g, errors)) :
    g.AllRules fun head clauses =>
      RuleText.IsName head ∧ ∀ c ∈ clauses, c.IsWritten := by
  refine allRules_extractFrom (fun _ _ _ hparse clauses hclauses => ?_)
    (Grammar.allRules_empty start) h
  obtain ⟨hname, hbody⟩ := RuleText.isWritten_of_parse hparse
  exact ⟨hname, hbody clauses hclauses⟩

/-- **Which extracted rules are read back from their display.** A rule is displayed
as a text that declares the rule again, as a single branch for the name it is a rule
for, exactly if nowhere in it a suffix stands on a suffix and the places in the text
fit their counters. Whatever is displayed declares nothing else. -/
theorem Builder.parse_display_iff (hK : TokenKind.IsNameable K)
    (h : b.extract start = .ok (g, errors)) {n : NonTerminal K α}
    (hn : n ∈ g.nonTerminals) {rule : Rule K α} (hrule : rule ∈ n.rules) :
    (RuleText.parse (rule.display n.name) =
        .ok (.ok ⟨n.name, .branches [rule.clauses]⟩) ↔
      (∀ c ∈ rule.clauses, c.Unstacked) ∧
        ∃ stop, Position.start.advance (rule.display n.name) = .ok stop) ∧
    ∀ d : Declaration K, RuleText.parse (rule.display n.name) = .ok (.ok d) →
      d = ⟨n.name, .branches [rule.clauses]⟩ := by
  obtain ⟨hname, hwritten⟩ := isWritten_of_extract h n hn rule hrule
  have hparse := RuleText.parse_display_rule hK hname hwritten
  refine ⟨⟨fun h => ((hparse _).mp h).2, fun h => ?_⟩, fun d hd => ?_⟩
  · exact (hparse _).mpr ⟨rfl, h⟩
  · exact ((hparse d).mp hd).1

namespace Script

/-- The kinds of Script can be spoken of in rule texts. -/
theorem isNameable : TokenKind.IsNameable ScriptKind where
  ofName?_name := ScriptKind.ofName?_name
  isName_name k := by
    cases k <;> exact ⟨_, _, rfl, rfl, List.all_eq_true.mp rfl⟩

/-- A builder of one production for `a`. -/
def single (text : String) : Builder ScriptKind Unit :=
  Builder.empty.production "a" text fun _ => ()

/-- Whether one of the rules that are extracted for `a` passes a test. -/
def someRule (b : Builder ScriptKind Unit)
    (test : String → Rule ScriptKind Unit → Bool) : Bool :=
  match b.extract "a" with
  | .ok (g, _) => g.nonTerminals.any fun n => n.rules.any (test n.name)
  | .error _ => false

theorem exists_of_someRule {b : Builder ScriptKind Unit}
    {test : String → Rule ScriptKind Unit → Bool} (h : someRule b test = true) :
    ∃ g errors n rule, b.extract "a" = .ok (g, errors) ∧ n ∈ g.nonTerminals ∧
      rule ∈ n.rules ∧ test n.name rule = true := by
  unfold someRule at h
  split at h
  · next g errors hg =>
    obtain ⟨n, hn, h⟩ := List.any_eq_true.mp h
    obtain ⟨rule, hrule, htest⟩ := List.any_eq_true.mp h
    exact ⟨g, errors, n, rule, hg, hn, hrule, htest⟩
  · cases h

/-- A repeated choice is displayed with blanks and without the parentheses around
a single name, and read back. -/
theorem suffixedChoice_parse_display :
    ∃ g errors n rule, (single "a:((NUM)+|b[d])*").extract "a" = .ok (g, errors) ∧
      n ∈ g.nonTerminals ∧ rule ∈ n.rules ∧
      rule.display n.name = "a : (NUM+ | b [d])*" ∧
      RuleText.parse (rule.display n.name) =
        .ok (.ok ⟨n.name, .branches [rule.clauses]⟩) := by
  have heval : someRule (single "a:((NUM)+|b[d])*") (fun head rule =>
      rule.display head == "a : (NUM+ | b [d])*" &&
        decide (∀ c ∈ rule.clauses, c.Unstacked)) = true := by
    decide +kernel
  obtain ⟨g, errors, n, rule, hg, hn, hrule, htest⟩ := exists_of_someRule heval
  rw [Bool.and_eq_true, beq_iff_eq, decide_eq_true_eq] at htest
  obtain ⟨hdisplay, hflat⟩ := htest
  refine ⟨g, errors, n, rule, hg, hn, hrule, hdisplay, ?_⟩
  refine (Builder.parse_display_iff isNameable hg hn hrule).1.mpr ⟨hflat, ?_⟩
  rw [hdisplay]
  exact ⟨_, rfl⟩

/-- **A rule that is not read back**: the parentheses of `(NUM?)*` are not
displayed, and a text without them is no rule text. -/
theorem starredOption_not_parse_display :
    TokenKind.IsNameable ScriptKind ∧
    ∃ g errors n rule, (single "a : (NUM?)*").extract "a" = .ok (g, errors) ∧
      n ∈ g.nonTerminals ∧ rule ∈ n.rules ∧ rule.display n.name = "a : NUM?*" ∧
      ∃ e, RuleText.parse (K := ScriptKind) (rule.display n.name) =
        .ok (.error e) := by
  have heval : someRule (single "a : (NUM?)*") (fun head rule =>
      rule.display head == "a : NUM?*") = true := by
    decide +kernel
  obtain ⟨g, errors, n, rule, hg, hn, hrule, htest⟩ := exists_of_someRule heval
  have hdisplay : rule.display n.name = "a : NUM?*" := eq_of_beq htest
  refine ⟨isNameable, g, errors, n, rule, hg, hn, hrule, hdisplay, ?_⟩
  have hrefused : (match RuleText.parse (K := ScriptKind) "a : NUM?*" with
      | .ok (.error _) => true
      | .ok (.ok _) => false
      | .error _ => false) = true := by
    decide +kernel
  rw [hdisplay]
  split at hrefused
  · next e h => exact ⟨e, h⟩
  · cases hrefused
  · cases hrefused

end Script

end Descent
