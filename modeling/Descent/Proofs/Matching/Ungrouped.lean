import Descent.Proofs.Grammar.Ungrouped
import Descent.Proofs.Matching.Rewriting

/-!
# Groups in sequences do not matter to matching

A group that stands in a sequence can be replaced by its members. What it matches
joins the children of the node around it all the same, and where one of its members
fails, the sequence around it fails with the same trace. Only the names of options
and repetitions, which are the written form of their clauses, show whether the group
was there (`Tree.unnamed` leaves them out).

Grammars that come from each other by dissolving groups pass the same checks and
parse alike (`Matcher.parse_of_dissolves`). The proof dissolves all groups of both
grammars, after which they are one grammar.
-/

namespace Descent

variable {K α : Type}

/-- What is written on a node, the name of an option or a repetition left out. -/
def Label.unnamed (l : Label K α) : Label K α :=
  { l with
    name := match l.kind with
      | .optional | .many => ""
      | .rule | .expression | .group => l.name }

/-- **The tree without the names of its options and repetitions.** -/
def Tree.unnamed : Tree K α → Tree K α := Tree.map Label.unnamed id id

namespace Matcher.Rewriting

/-- **Dissolving all groups in sequences** leaves of a tree everything but the names
of options and repetitions. -/
def ungrouping : Rewriting K α where
  toRewriting := .ungrouping
  label := Label.unnamed
  mark_mark _ := rfl
  label_bare x y kind hkind := by rcases hkind with rfl | rfl <;> rfl
  label_discarded l l' d h := by
    have hset (l : Label K α) : Label.unnamed { l with discarded := d } =
        { l.unnamed with discarded := d } := rfl
    rw [hset, h]
    exact (hset l').symm

/-- A matcher over the grammar without groups is one over the rewritten grammar, if
its style knows groups. -/
theorem ungrouping_relates (g : Grammar K α) (tokens : TokenList K) :
    ungrouping.Relates ⟨g, .ebnf, tokens⟩ ⟨g.ungrouped, .ebnf, tokens⟩ where
  tokens := rfl
  style := rfl
  entries := rfl
  splices _ := rfl

end Matcher.Rewriting

namespace Grammar

variable {g g' : Grammar K α}

/-- Dissolving groups one after the other makes no difference to dissolving all. -/
theorem ungrouped_eq_of_dissolves
    (h : Relation.ReflTransGen Grammar.Dissolves g g') :
    g'.ungrouped = g.ungrouped := by
  induction h with
  | refl => rfl
  | tail _ hstep ih => exact hstep.ungrouped_eq.trans ih

end Grammar

namespace Matcher

variable [DecidableEq K] [TokenKind K]

/-- **A parse answers the same without groups**, up to the names of options and
repetitions in the tree. -/
theorem parse_ungrouped {g : Grammar K α} (hrec : g.isLeftRecursive = false)
    (tokens : TokenList K) (start : String) :
    ((Matcher.mk g.ungrouped .ebnf tokens).parse start).map (Except.map Tree.unnamed) =
      ((Matcher.mk g .ebnf tokens).parse start).map (Except.map Tree.unnamed) :=
  (Rewriting.ungrouping_relates g tokens).parse_eq hrec start

/-- **Groups in sequences do not matter.** Let a grammar come from another by
replacing groups that stand in sequences by their members, one after the other. The
left-recursive cycles, the nullable names and the undefined references are the same.
If the grammar is not left-recursive, both come to the same answer over all tokens
and from every name: to one error, or to trees that are equal without the names of
their options and repetitions. -/
theorem parse_of_dissolves {g g' : Grammar K α}
    (h : Relation.ReflTransGen Grammar.Dissolves g g') :
    g'.leftCycles = g.leftCycles ∧ g'.isLeftRecursive = g.isLeftRecursive ∧
      g'.nullable = g.nullable ∧
      g'.undefinedReferences = g.undefinedReferences ∧
      (g.isLeftRecursive = false → ∀ tokens start, ∃ answer answer',
        (Matcher.mk g .ebnf tokens).parse start = .ok answer ∧
        (Matcher.mk g' .ebnf tokens).parse start = .ok answer' ∧
        answer'.map Tree.unnamed = answer.map Tree.unnamed) := by
  have hungrouped : g'.ungrouped = g.ungrouped := Grammar.ungrouped_eq_of_dissolves h
  have hprofiles : g'.profiles = g.profiles := by
    rw [← g'.profiles_ungrouped, hungrouped, g.profiles_ungrouped]
  have hleft : g'.isLeftRecursive = g.isLeftRecursive :=
    Grammar.isLeftRecursive_eq_of_profiles hprofiles
  refine ⟨Grammar.leftCycles_eq_of_profiles hprofiles, hleft,
    Grammar.nullable_eq_of_profiles hprofiles,
    Grammar.undefinedReferences_eq_of_profiles hprofiles, fun hrec tokens start => ?_⟩
  obtain ⟨answer, hanswer⟩ := exists_answer (m := ⟨g, .ebnf, tokens⟩) hrec start
  obtain ⟨answer', hanswer'⟩ :=
    exists_answer (m := ⟨g', .ebnf, tokens⟩) (hleft.trans hrec) start
  refine ⟨answer, answer', hanswer, hanswer', ?_⟩
  have hm := parse_ungrouped hrec tokens start
  have hm' := parse_ungrouped (hleft.trans hrec) tokens start
  rw [hungrouped, hm, hanswer, hanswer'] at hm'
  exact (Except.ok.inj hm').symm

end Matcher

namespace Script

/-- Numbers with a sign that can be doubled, each followed by commas or not. In the
grouped form the sign and the commas stand in groups, one of them in a repetition. -/
def signedList (signs pairs : List (Clause ScriptKind)) : Grammar ScriptKind Unit where
  start := "list"
  nonTerminals :=
    [⟨"list", [.ofClauses "list" (signs ++ [.star (.group pairs)]) fun _ => ()], []⟩]
  names_nodup := List.nodup_singleton _

/-- A sign that can be doubled. -/
def signs : List (Clause ScriptKind) :=
  [.token .minus false, .optional (.token .minus true)]

/-- A number and a comma. -/
def pair : List (Clause ScriptKind) := [.token .num false, .token .comma false]

/-- The tree of `-1,`, where the repetition has a name of its own. -/
def signedListTree (name : String) : Tree ScriptKind Unit :=
  .node (.rule "list" fun _ => ())
    [.leaf (.unplaced .minus "-") false,
      .node (.bare (Clause.optional (.token ScriptKind.minus true)).display .optional) [],
      .node (.bare name .many)
        [.leaf (.unplaced .num "1") false, .leaf (.unplaced .comma ",") false]]

/-- The tokens of `-1,`. -/
def minusOne : TokenList ScriptKind :=
  .withStop [.unplaced .minus "-", .unplaced .num "1", .unplaced .comma ","] .start

/-- A group of the signs is dissolved, and one in the body of the repetition. -/
theorem signedList_parse :
    Relation.ReflTransGen Grammar.Dissolves (signedList [.group signs] [.group pair])
        (signedList signs pair) ∧
      (signedList [.group signs] [.group pair]).isLeftRecursive = false ∧
      (Matcher.mk (signedList [.group signs] [.group pair]) .ebnf minusOne).parse
        "list" = .ok (.ok (signedListTree "((NUM COMMA))*")) ∧
      (Matcher.mk (signedList signs pair) .ebnf minusOne).parse "list" =
        .ok (.ok (signedListTree "(NUM COMMA)*")) ∧
      (signedListTree "(NUM COMMA)*").unnamed =
        (signedListTree "((NUM COMMA))*").unnamed := by
  have hsigns : (signedList [.group signs] [.group pair]).Dissolves
      (signedList signs [.group pair]) :=
    ⟨[], _, [], [], _, [], _, rfl, rfl,
      @Clause.DissolvesIn.here _ [] signs _, rfl, rfl⟩
  have hpair : (signedList signs [.group pair]).Dissolves (signedList signs pair) :=
    ⟨[], _, [], [], _, [], _, rfl, rfl,
      .inside (.star (.group (@Clause.DissolvesIn.here _ [] pair []))), rfl, rfl⟩
  have h := Relation.ReflTransGen.tail (.single hsigns) hpair
  have hrec : (signedList [.group signs] [.group pair]).isLeftRecursive = false := by
    decide +kernel
  have hparse : (Matcher.mk (signedList [.group signs] [.group pair]) .ebnf
      minusOne).parse "list" = .ok (.ok (signedListTree "((NUM COMMA))*")) := by rfl
  have hparse' : (Matcher.mk (signedList signs pair) .ebnf minusOne).parse "list" =
      .ok (.ok (signedListTree "(NUM COMMA)*")) := by rfl
  obtain ⟨answer, answer', hanswer, hanswer', hsame⟩ :=
    (Matcher.parse_of_dissolves h).2.2.2.2 hrec minusOne "list"
  obtain rfl := Except.ok.inj (hanswer.symm.trans hparse)
  obtain rfl := Except.ok.inj (hanswer'.symm.trans hparse')
  exact ⟨h, hrec, hparse, hparse', Except.ok.inj hsame⟩

end Script

end Descent
