import Descent.Proofs.Grammar.Unmarked
import Descent.Proofs.Matching.Contribution
import Descent.Proofs.Matching.Rewriting
import Descent.Proofs.Tree.Unmarked

/-!
# Discard marks do not matter to matching

A matcher goes through the same run over a grammar and over the grammar without its
discard marks: a mark is put on a tree when the tree is there, and nothing is asked of
it afterwards. The trees that the two runs give are equal without their marks
(`Matcher.parse_unmarked`).

So two grammars that differ in their marks alone match the same, fail the same, and
give trees with the same options (`Matcher.parse_of_unmarked_eq`).
-/

namespace Descent

variable {K α : Type}

namespace Matcher

namespace Rewriting

/-- **Taking off marks** leaves of a tree what it has without marks. -/
def unmarking : Rewriting K α where
  toRewriting := .unmarking
  label := Label.unmarked
  mark_mark _ := rfl
  label_bare x y kind hkind := by rcases hkind with rfl | rfl <;> rfl
  label_discarded _ _ _ h := h

/-- What is left of a tree is the tree without marks. -/
theorem tree_unmarking : (unmarking : Rewriting K α).tree = Tree.unmarked :=
  (funext Tree.unmarked_eq_map).symm

/-- A matcher over the grammar without marks is one over the rewritten grammar. -/
theorem unmarking_relates (m : Matcher K α) :
    unmarking.Relates m ⟨m.grammar.unmarked, m.style, m.tokens⟩ where
  tokens := rfl
  style := rfl
  entries := rfl
  splices h := by cases h

end Rewriting

variable [DecidableEq K] [TokenKind K] {m : Matcher K α} {start : String}

/-- **A parse answers the same without marks**, up to marks in the tree. -/
theorem parse_unmarked (hrec : m.grammar.isLeftRecursive = false) (start : String) :
    ((Matcher.mk m.grammar.unmarked m.style m.tokens).parse start).map
        (Except.map Tree.unmarked) =
      (m.parse start).map (Except.map Tree.unmarked) := by
  rw [← Rewriting.tree_unmarking]
  exact (Rewriting.unmarking_relates m).parse_eq hrec start

/-- The options of a parsed tree have values for what they match. -/
theorem hasOptions_of_parse {tree : Tree K α}
    (h : m.parse start = .ok (.ok tree)) : tree.HasOptions := by
  refine ((derives_of_parse h).allNodes tree List.mem_cons_self).imp
    fun l cs hshaped hkind => ?_
  simp only [Grammar.Shaped, hkind] at hshaped
  obtain ⟨_, _, rfl | hcs⟩ := hshaped
  · exact ⟨[], rfl⟩
  · exact hcs.valued

/-- **Discard marks do not matter to matching.** Let two grammars differ in their
marks alone. Their left-recursive cycles, their nullable names and their undefined
references are the same. If they are not left-recursive, they come to the same
answer in every style, over all tokens and from every name: to one error, or to
trees that are equal without their marks. Both trees have an output then, and an
option that is missing for the callbacks of the one is missing for those of the
other. -/
theorem parse_of_unmarked_eq {g g' : Grammar K α} (h : g.unmarked = g'.unmarked) :
    g.leftCycles = g'.leftCycles ∧ g.nullable = g'.nullable ∧
      g.undefinedReferences = g'.undefinedReferences ∧
      (g.isLeftRecursive = false → ∀ s tokens start, ∃ answer answer',
        (Matcher.mk g s tokens).parse start = .ok answer ∧
        (Matcher.mk g' s tokens).parse start = .ok answer' ∧
        answer.map Tree.unmarked = answer'.map Tree.unmarked ∧
        ∀ tree tree', answer = .ok tree → answer' = .ok tree' →
          (∃ x, tree.reduce = .ok x) ∧ (∃ x, tree'.reduce = .ok x) ∧
            tree.SameOptions tree') := by
  have hprofiles : g.profiles = g'.profiles := by
    rw [← g.profiles_unmarked, h, g'.profiles_unmarked]
  have hcycles : g.leftCycles = g'.leftCycles :=
    Grammar.leftCycles_eq_of_profiles hprofiles
  refine ⟨hcycles, Grammar.nullable_eq_of_profiles hprofiles,
    Grammar.undefinedReferences_eq_of_profiles hprofiles, fun hrec s tokens start => ?_⟩
  have hrec' : g'.isLeftRecursive = false := by
    rwa [Grammar.isLeftRecursive, hcycles] at hrec
  obtain ⟨answer, hanswer⟩ := exists_answer (m := ⟨g, s, tokens⟩) hrec start
  obtain ⟨answer', hanswer'⟩ := exists_answer (m := ⟨g', s, tokens⟩) hrec' start
  have hsame : answer.map Tree.unmarked = answer'.map Tree.unmarked := by
    have hm := parse_unmarked (m := ⟨g, s, tokens⟩) hrec start
    have hm' := parse_unmarked (m := ⟨g', s, tokens⟩) hrec' start
    simp only [h, hanswer, hanswer'] at hm hm'
    exact Except.ok.inj (hm.symm.trans hm')
  refine ⟨answer, answer', hanswer, hanswer', hsame, ?_⟩
  rintro tree tree' rfl rfl
  exact ⟨exists_reduce_of_parse hanswer, exists_reduce_of_parse hanswer',
    Tree.sameOptions_of_unmarked_eq (Except.ok.inj hsame)
      (hasOptions_of_parse hanswer) (hasOptions_of_parse hanswer')⟩

end Matcher

namespace Script

/-- A number that a semicolon may follow. One of the two is marked. -/
def markedList (mark : Bool) : Grammar ScriptKind Unit where
  start := "list"
  nonTerminals :=
    [⟨"list",
      [.ofClauses "list"
        [.token .num (!mark), .optional (.token .semi mark)] fun _ => ()], []⟩]
  names_nodup := List.nodup_singleton _

/-- The tree of `1;`. -/
def markedListTree (mark : Bool) : Tree ScriptKind Unit :=
  .node (.rule "list" fun _ => ())
    [.leaf (.unplaced .num "1") (!mark),
      .node (.bare (Clause.optional (.token ScriptKind.semi mark)).display .optional)
        [.leaf (.unplaced .semi ";") mark]]

/-- The tokens of `1;`. -/
def oneSemi : TokenList ScriptKind :=
  .withStop [.unplaced .num "1", .unplaced .semi ";"] .start

theorem markedList_sameOptions :
    (markedList true).unmarked = (markedList false).unmarked ∧
      (markedList true).isLeftRecursive = false ∧
      (∀ mark, (Matcher.mk (markedList mark) .ebnf oneSemi).parse "list" =
        .ok (.ok (markedListTree mark))) ∧
      (markedListTree true).unmarked = (markedListTree false).unmarked ∧
      (markedListTree true).SameOptions (markedListTree false) := by
  have h : (markedList true).unmarked = (markedList false).unmarked := by rfl
  have hrec : (markedList true).isLeftRecursive = false := by decide +kernel
  have hparse (mark : Bool) :
      (Matcher.mk (markedList mark) .ebnf oneSemi).parse "list" =
        .ok (.ok (markedListTree mark)) := by
    cases mark <;> rfl
  obtain ⟨answer, answer', hanswer, hanswer', hsame, hoptions⟩ :=
    (Matcher.parse_of_unmarked_eq h).2.2.2 hrec .ebnf oneSemi "list"
  obtain rfl := Except.ok.inj (hanswer.symm.trans (hparse true))
  obtain rfl := Except.ok.inj (hanswer'.symm.trans (hparse false))
  exact ⟨h, hrec, hparse, Except.ok.inj hsame, (hoptions _ _ rfl rfl).2.2⟩

end Script

end Descent
