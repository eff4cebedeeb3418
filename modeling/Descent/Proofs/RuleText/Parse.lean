import Descent.Proofs.RuleText.Reading
import Descent.Script

/-!
# The reader of rule texts accepts the notation of rule texts

A text is a rule text if its tokens spell one, and it declares what they spell.
What the reader accepts spells something, because the grammar of rule texts allows
nothing else (`RuleText.exists_spells`); what spells something is accepted, because
the matcher loses no sentence (`RuleText.Spells.isRead`). The matcher gives one
tree at most, so the two are about one thing, and tokens spell one thing at most.
-/

namespace Descent

namespace RuleText

variable {K : Type} [TokenKind K]

/-! ## The grammar is usable -/

/-- The body alone can match nothing. -/
theorem nullable_grammar : (grammar K).nullable = ["body"] := by cbv

theorem leftmostGraph_grammar :
    (grammar K).leftmostGraph = [[], [2, 3], [], [4], [5], [6], []] := by
  unfold Grammar.leftmostGraph
  rw [nullable_grammar]
  cbv

/-- **The grammar of rule texts is not left-recursive.** -/
theorem isLeftRecursive_grammar : (grammar K).isLeftRecursive = false := by
  have hcycles :
      Graph.elementaryCycles [[], [2, 3], [], [4], [5], [6], []] = [] := by
    decide +kernel
  rw [Grammar.isLeftRecursive, Grammar.leftCycles, leftmostGraph_grammar,
    hcycles]
  rfl

theorem contains_root : (grammar K).contains root = true := by
  rw [Grammar.contains_eq_isSome_get?]
  exact congrArg Option.isSome (get?_symbol .rule)

/-! ## Parsing rule texts -/

variable {tokens : TokenList RuleKind} {text : String} {part : Part K}
  {tree : Tree RuleKind (Part K)}

/-- **Tokens that spell a rule text are parsed**: the tree gives what they spell,
and every callback in it is given what it is made for. -/
theorem Spells.exists_parse (h : Spells .rule tokens.toList part) :
    ∃ tree, (matcher K tokens).parse root = .ok (.ok tree) ∧
      tree.reduce = .ok part ∧ tree.AllNodes Settled := by
  obtain ⟨f, us, vs, hpeg, hvs, hf, rfl, hall⟩ := h.isRead [] (avoids_nil _)
  rw [List.append_nil] at hpeg
  have hparse := (Matcher.parse_eq_tree_iff_peg (m := matcher K tokens)
    isLeftRecursive_grammar).mpr hpeg
  refine ⟨_, hparse, ?_, .node (fun g hg => ?_) hall⟩
  · simp [Tree.reduce, Tree.value, Label.rule, hvs, Tree.nodeValue]
  · obtain rfl := Option.some.inj hg
    exact ⟨vs, hvs, hf⟩

/-- **What is parsed spells what it gives.** -/
theorem spells_of_parse (h : (matcher K tokens).parse root = .ok (.ok tree)) :
    ∃ part : Part K, Spells .rule tokens.toList part ∧ tree.reduce = .ok part ∧
      tree.AllNodes Settled := by
  obtain ⟨part, hpart⟩ := exists_spells .rule (Matcher.derives_of_parse h)
  rw [Matcher.tokensAll_of_parse h] at hpart
  obtain ⟨tree', htree', hreduce, hall⟩ := hpart.exists_parse
  obtain rfl := Except.ok.inj (Except.ok.inj (h.symm.trans htree'))
  exact ⟨part, hpart, hreduce, hall⟩

/-- A tree of a declaration is what a text declares. -/
theorem parse_of_tree (hread : lexicon.lexer.read text = .ok (.ok tokens))
    (htree : (matcher K tokens).parse root = .ok (.ok tree)) {d : Declaration K}
    (hd : tree.reduce = .ok (.declaration d)) : parse text = .ok (.ok d) := by
  have heval : (matcher K tokens).evaluate root = .ok (.ok (.declaration d)) :=
    Matcher.evaluate_eq_output_iff.mpr ⟨tree, htree, hd⟩
  simp [parse, hread, heval, bind, Except.bind, pure, Except.pure]

/-- The error of a parse is the error of the text. -/
theorem parse_of_error (hread : lexicon.lexer.read text = .ok (.ok tokens))
    {e : ParseError RuleKind}
    (he : (matcher K tokens).parse root = .ok (.error e)) :
    parse (K := K) text = .ok (.error e) := by
  have heval : (matcher K tokens).evaluate root = .ok (.error e) := by
    simp [Matcher.evaluate, he, bind, Except.bind, pure, Except.pure]
  simp [parse, hread, heval, bind, Except.bind, pure, Except.pure]

/-- What is declared is spelled by the tokens of the text. -/
theorem exists_spells_of_parse {d : Declaration K}
    (h : parse text = .ok (.ok d)) :
    ∃ tokens, lexicon.lexer.read text = .ok (.ok tokens) ∧
      Spells .rule tokens.toList (.declaration d) := by
  cases hread : lexicon.lexer.read text with
  | error fault => simp [parse, hread, bind, Except.bind] at h
  | ok answer =>
    cases answer with
    | error e =>
      simp [parse, hread, bind, Except.bind, pure, Except.pure] at h
    | ok tokens =>
      refine ⟨tokens, rfl, ?_⟩
      rcases Matcher.tree_or_unexpected_of_parse (m := matcher K tokens)
        isLeftRecursive_grammar contains_root with ⟨tree, htree⟩ | ⟨e, he⟩
      · obtain ⟨part, hspells, hreduce, _⟩ := spells_of_parse htree
        obtain ⟨d', rfl⟩ := hspells.fits
        have hparse := parse_of_tree hread htree hreduce
        obtain rfl := Except.ok.inj (Except.ok.inj (hparse.symm.trans h))
        exact hspells
      · cases (parse_of_error hread he).symm.trans h

/-- What the tokens of a text spell is declared. -/
theorem parse_of_spells (hread : lexicon.lexer.read text = .ok (.ok tokens))
    {d : Declaration K} (h : Spells .rule tokens.toList (.declaration d)) :
    parse text = .ok (.ok d) := by
  obtain ⟨tree, htree, hreduce, _⟩ := h.exists_parse
  exact parse_of_tree hread htree hreduce

/-- **The reader of rule texts accepts exactly the notation of rule texts.** A
text that is made of tokens declares what its tokens spell; if they spell nothing,
it is refused at an unexpected token. Every callback is given what it is made for,
so none of them ever has to make do with anything else. -/
theorem parse_iff_spells (hread : lexicon.lexer.read text = .ok (.ok tokens)) :
    (∀ d : Declaration K, parse text = .ok (.ok d) ↔
      Spells .rule tokens.toList (.declaration d)) ∧
    ((∃ e, parse (K := K) text = .ok (.error (.unexpected e))) ↔
      ¬ ∃ d : Declaration K, Spells .rule tokens.toList (.declaration d)) ∧
    ∀ tree, (matcher K tokens).parse root = .ok (.ok tree) →
      tree.AllNodes Settled := by
  have hiff (d : Declaration K) : parse text = .ok (.ok d) ↔
      Spells .rule tokens.toList (.declaration d) := by
    refine ⟨fun h => ?_, parse_of_spells hread⟩
    obtain ⟨tokens', hread', hspells⟩ := exists_spells_of_parse h
    obtain rfl := Except.ok.inj (Except.ok.inj (hread.symm.trans hread'))
    exact hspells
  refine ⟨hiff, ⟨?_, fun hnone => ?_⟩, fun tree h => ?_⟩
  · rintro ⟨e, he⟩ ⟨d, hd⟩
    cases he.symm.trans ((hiff d).mpr hd)
  · rcases Matcher.tree_or_unexpected_of_parse (m := matcher K tokens)
      isLeftRecursive_grammar contains_root with ⟨tree, htree⟩ | ⟨e, he⟩
    · obtain ⟨part, hspells, _⟩ := spells_of_parse htree
      obtain ⟨d, rfl⟩ := hspells.fits
      exact absurd ⟨d, hspells⟩ hnone
    · exact ⟨e, parse_of_error hread he⟩
  · obtain ⟨_, _, _, hall⟩ := spells_of_parse h
    exact hall

end RuleText

namespace Script

open RuleText

/-- The tokens of the rule text `a : (NUM | b)*`. -/
def starredChoice : List (Token RuleKind) :=
  [.placed .ident "a" ⟨1, 1, 0⟩ ⟨0, 1⟩, .placed .colon ":" ⟨1, 3, 2⟩ ⟨2, 3⟩,
    .placed .lparen "(" ⟨1, 5, 4⟩ ⟨4, 5⟩,
    .placed .ident "NUM" ⟨1, 6, 5⟩ ⟨5, 8⟩, .placed .pipe "|" ⟨1, 10, 9⟩ ⟨9, 10⟩,
    .placed .ident "b" ⟨1, 12, 11⟩ ⟨11, 12⟩,
    .placed .rparen ")" ⟨1, 13, 12⟩ ⟨12, 13⟩,
    .placed .star "*" ⟨1, 14, 13⟩ ⟨13, 14⟩]

theorem exists_read_starredChoice :
    ∃ tokens, RuleText.lexicon.lexer.read "a : (NUM | b)*" = .ok (.ok tokens) ∧
      tokens.toList = starredChoice := by
  have heval : (match RuleText.lexicon.lexer.read "a : (NUM | b)*" with
      | .ok (.ok tokens) => decide (tokens.toList = starredChoice)
      | _ => false) = true := by
    decide +kernel
  split at heval
  · next tokens h => exact ⟨tokens, h, of_decide_eq_true heval⟩
  · cases heval

/-- What the tokens of the rule text spell: a repeated choice between a kind of
token and a non-terminal. -/
theorem starredChoice_spells :
    Spells .rule starredChoice (.declaration ⟨"a",
      .branches [[.star (.choice
        [.token ScriptKind.num false, .reference "b" false])]]⟩) := by
  have hnum : Spells .sequence [starredChoice[3]]
      (.sequence [.token ScriptKind.num false]) :=
    .last (.clause (.name rfl (.kind rfl)))
  have hb : Spells .sequence [starredChoice[5]]
      (.sequence [(.reference "b" false : Clause ScriptKind)]) :=
    .last (.clause (.name rfl (.other rfl)))
  have hbranches : Spells .alternation
      ([starredChoice[3]] ++ starredChoice[4] :: [starredChoice[5]])
      (.branches _) :=
    .branches hnum rfl (.branch hb)
  have hatom : Spells .atom
      (starredChoice[2] :: (_ ++ [starredChoice[6]])) (.clause _) :=
    .parentheses rfl hbranches rfl (.many (.cons .one (.cons .one .nil)))
  have hclause : Spells .clause (_ ++ [starredChoice[7]]) (.clause _) :=
    .suffixed hatom .star
  exact .rule rfl rfl (.branchesBody (.branch (.last hclause)))

theorem starredChoice_parse :
    ∃ tokens, RuleText.lexicon.lexer.read "a : (NUM | b)*" = .ok (.ok tokens) ∧
      RuleText.parse "a : (NUM | b)*" = .ok (.ok ⟨"a",
        .branches [[.star (.choice
          [.token ScriptKind.num false, .reference "b" false])]]⟩) := by
  obtain ⟨tokens, hread, htokens⟩ := exists_read_starredChoice
  exact ⟨tokens, hread,
    ((parse_iff_spells hread).1 _).mpr (htokens ▸ starredChoice_spells)⟩

end Script

end Descent
