import Descent.Proofs.Lexical.Places
import Descent.Proofs.Matching.Contribution
import Descent.Proofs.Matching.Declared
import Descent.Proofs.Parser.Build
import Descent.Script

/-!
# A built parser answers every text

What validation has found in order stays in order. A built parser has a lexer, a
start that is declared, no name that is referred to and not declared, no clause
that its style does not know and no left recursion
(`Builder.isSound_of_build`). So over any text whose places fit their counters,
and from any declared name, it gives an output or a single error; the error is
about the text, and stands where it says (`Builder.answers_of_build`).

Each way to fail otherwise is closed by an earlier stage. A start that is not
declared is ruled out by the caller, an endless match by the check for left
recursion, and a node without a callback by the matcher, which makes none.
-/

namespace Descent

variable {K α : Type}

/-! ## What validation ensures -/

/-- **A grammar is sound** for a style of matching: nothing in it is found
wrong. -/
structure Grammar.IsSound (g : Grammar K α) (s : Style) : Prop where
  /-- The start is declared. -/
  start : g.contains g.start = true
  /-- All names referred to are declared, and the style knows all clauses. -/
  admitted : g.Admitted s
  /-- No non-terminal is left-recursive. -/
  recursion : g.isLeftRecursive = false

namespace Builder

variable {catalog : Catalog} {style : Style} {g : Grammar K α}

/-- All names in a grammar are declared if no error says otherwise. -/
theorem contains_of_referenceErrors (h : referenceErrors catalog g = [])
    {n : NonTerminal K α} (hn : n ∈ g.nonTerminals) {x : String}
    (hx : x ∈ n.references) : g.contains x = true := by
  have hnone : g.undefinedReferences = [] := List.map_eq_nil_iff.mp h
  by_contra hcontains
  have hmem : (n.name, x) ∈ g.undefinedReferences := by
    rw [Grammar.undefinedReferences, List.mem_eraseDups, List.mem_flatMap]
    refine ⟨n, hn, List.mem_map_of_mem (List.mem_filter.mpr ⟨hx, ?_⟩)⟩
    simpa using hcontains
  rw [hnone] at hmem
  exact List.not_mem_nil hmem

/-- The style knows all clauses of a grammar if no error says otherwise. -/
theorem allows_of_styleErrors (h : styleErrors catalog style g = [])
    {n : NonTerminal K α} (hn : n ∈ g.nonTerminals) {rule : Rule K α}
    (hrule : rule ∈ n.rules) {c : Clause K} (hc : c ∈ rule.clauses) :
    style.allows c = true := by
  cases style with
  | ebnf => rfl
  | plain =>
    have hnone := List.filter_eq_nil_iff.mp (List.map_eq_nil_iff.mp h) rule
      (List.mem_flatMap.mpr ⟨n, hn, hrule⟩)
    have hplain : rule.isPlain = true := by simpa using hnone
    exact List.all_eq_true.mp hplain c hc

/-- **A grammar in which nothing is found wrong is sound.** -/
theorem isSound_of_validate (h : validate catalog style g = []) :
    g.IsSound style := by
  simp only [validate, List.append_eq_nil_iff] at h
  obtain ⟨⟨⟨hstart, hreferences⟩, hstyle⟩, hrecursion⟩ := h
  refine ⟨?_, fun n hn rule hrule c hc => ⟨?_, fun x hx => ?_⟩, ?_⟩
  · simpa [startErrors] using hstart
  · exact allows_of_styleErrors hstyle hn hrule hc
  · refine contains_of_referenceErrors hreferences hn ?_
    refine List.mem_flatMap.mpr ⟨rule, hrule, ?_⟩
    rw [Rule.references, Clause.referencesAll_eq_flatMap]
    exact List.mem_flatMap.mpr ⟨c, hc, hx⟩
  · simpa [recursionErrors] using hrecursion

variable [TokenKind K] {b : Builder K α} {root : String} {p : Parser K α}

/-- **The grammar of a built parser is sound.** -/
theorem isSound_of_build (h : b.build style root = .ok (.ok p)) :
    p.grammar.IsSound p.style := by
  obtain ⟨_, hvalid, rfl, _⟩ := build_eq_ok h
  exact isSound_of_validate hvalid

/-- A built parser reads texts with the lexer that was given. -/
theorem lexer_of_build {lexer : Lexer K}
    (h : (b.withLexer (.ready lexer)).build style root = .ok (.ok p)) :
    p.lexer = lexer :=
  (Except.ok.inj (build_eq_ok h).2.2.2).symm

end Builder

/-! ## Where errors are -/

/-- **An unexpected token stands in the text**: it is one of the tokens, and the
error is where the token is. Without a token the error is at the end. -/
def UnexpectedToken.PlacedIn (e : UnexpectedToken K) (tokens : TokenList K)
    (source : String) : Prop :=
  match e.token with
  | some t => t ∈ tokens.toList ∧ t.position = e.position ∧ t.span = e.span ∧
      t.text ≠ "" ∧ StandsAt source t.text e.position e.span
  | none => StandsAt source "" e.position e.span ∧
      e.span.start.toNat = source.utf8ByteSize

/-- **An error is about a text**: something in it is no token, or one of its
tokens or its end is unexpected, and the error stands there. -/
def ParseError.IsAbout (lexer : Lexer K) (source : String) : ParseError K → Prop
  | .lexical e => lexer.read source = .ok (.error e) ∧ e.PlacedIn source
  | .unexpected e => ∃ tokens, lexer.read source = .ok (.ok tokens) ∧
      e.PlacedIn tokens source
  | .unknownStart _ | .missingCallback _ => False

/-- A failure is reported at the token, or at the end, where matching got
furthest. -/
theorem Matcher.unexpected_placedIn [DecidableEq K] {m : Matcher K α}
    {source : String} (h : m.tokens.PlacedIn source)
    (hfits : source.utf8ByteSize + 1 < UInt32.size) (r : Run K) :
    (m.unexpected r).PlacedIn m.tokens source := by
  cases ht : m.tokens.get? r.errorIndex with
  | some t =>
    have hmem : t ∈ m.tokens.toList := by
      rw [TokenList.get?_eq] at ht
      exact List.mem_of_getElem? ht
    simp only [UnexpectedToken.PlacedIn, unexpected, TokenList.location, ht]
    obtain ⟨hne, hstands⟩ := h.standsAt t hmem
    exact ⟨hmem, trivial, trivial, hne, hstands⟩
  | none =>
    simp only [UnexpectedToken.PlacedIn, unexpected, TokenList.location, ht]
    exact ⟨standsAt_end h.stop hfits,
      (Position.within_of_advance h.stop hfits).offset⟩

/-! ## Answers -/

namespace Matcher

variable [DecidableEq K] [TokenKind K] {m : Matcher K α} {start : String}

/-- Without left recursion the parse from a declared start has an output, or a
failure that is an unexpected token. -/
theorem output_or_unexpected (h : m.grammar.isLeftRecursive = false)
    (hstart : m.grammar.contains start = true) :
    (∃ x, m.evaluate start = .ok (.ok x)) ∨
      ∃ r, m.evaluate start = .ok (.error (.unexpected (m.unexpected r))) := by
  rcases tree_or_unexpected_of_parse h hstart with ⟨tree, htree⟩ | ⟨e, he⟩
  · obtain ⟨x, hx⟩ := exists_reduce_of_parse htree
    exact .inl ⟨x, evaluate_eq_output_iff.mpr ⟨tree, htree, hx⟩⟩
  · obtain ⟨_, r, _, rfl⟩ := parse_eq_unexpected_iff.mp he
    refine .inr ⟨r, ?_⟩
    simp [evaluate, he, bind, Except.bind, pure, Except.pure]

end Matcher

/-- **A built parser only fails in the ways it should.** Let a parser be built from
any productions for any style and root, with the lexer of any automaton. From
every declared name and over every text of fewer bytes than the largest word it
comes to an answer, without a fault: an output or one error, which is about the
text and stands there, in tokens or before there are any. In no run over any
tokens is a name entered that is not declared, or a clause that the style does
not know. -/
theorem Builder.answers_of_build [DecidableEq K] [TokenKind K] (b : Builder K α)
    (a : Automaton K) {style : Style} {root : String} {p : Parser K α}
    (hb : (b.withLexer (.ready a.lexer)).build style root = .ok (.ok p))
    {text : String} (htext : text.utf8ByteSize < UInt32.size - 1)
    {start : String} (hstart : p.grammar.contains start = true) :
    (∃ answer, p.parseFrom text start = .ok answer ∧
      ∀ e, answer = .error e → e.IsAbout a.lexer text) ∧
    ∀ tokens n, ((p.matcher tokens).nonTerminal n start .start).All
      (·.Tame p.grammar) := by
  have hsound := isSound_of_build hb
  have hlexer := lexer_of_build hb
  have hfits : text.utf8ByteSize + 1 < UInt32.size := by omega
  refine ⟨?_, fun tokens => Matcher.all_tame_nonTerminal (m := p.matcher tokens)
    hsound.admitted hstart⟩
  rcases a.read_places hfits with ⟨tokens, hread, hplaced⟩ | ⟨e, hread, he⟩
  · have hparse : p.parseFrom text start = (p.matcher tokens).evaluate start := by
      simp [Parser.parseFrom, Parser.tokenize, hlexer, hread, Except.mapError,
        bind, Except.bind, pure, Except.pure]
    rw [hparse]
    rcases Matcher.output_or_unexpected (m := p.matcher tokens) hsound.recursion
        hstart with ⟨x, hx⟩ | ⟨r, hr⟩
    · exact ⟨_, hx, fun _ h => by cases h⟩
    · refine ⟨_, hr, fun e he => ?_⟩
      obtain rfl := Except.error.inj he
      exact ⟨tokens, hread,
        Matcher.unexpected_placedIn (m := p.matcher tokens) hplaced hfits r⟩
  · refine ⟨.error (.lexical e), ?_, fun e' he' => ?_⟩
    · simp [Parser.parseFrom, Parser.tokenize, hlexer, hread, Except.mapError,
        bind, Except.bind, pure, Except.pure]
    · obtain rfl := Except.error.inj he'
      exact ⟨hread, he⟩

namespace Script

/-- Productions of sums of numbers. -/
def sumsOfNumbers : Builder ScriptKind Unit :=
  (Builder.empty.production "sum" "sum : NUM" fun _ => ()).production "sum"
    "sum : %infix PLUS 10" fun _ => ()

/-- A parenthesis is no part of a sum, and is reported where it stands. -/
theorem sumsOfNumbers_answers :
    ∃ p e, (sumsOfNumbers.withLexer (.ready lexicon.automaton.lexer)).build .ebnf
        "sum" = .ok (.ok p) ∧
      p.grammar.contains "sum" = true ∧
      p.parseFrom "1 + 2)" "sum" = .ok (.error e) ∧
      e.IsAbout lexicon.automaton.lexer "1 + 2)" := by
  have heval : (match
        (sumsOfNumbers.withLexer (.ready lexicon.automaton.lexer)).build .ebnf
          "sum" with
      | .ok (.ok p) => p.grammar.contains "sum" &&
        match p.parseFrom "1 + 2)" "sum" with
        | .ok (.error _) => true
        | .ok (.ok _) => false
        | .error _ => false
      | .ok (.error _) => false
      | .error _ => false) = true := by
    decide +kernel
  split at heval
  · next p hp =>
    rw [Bool.and_eq_true] at heval
    obtain ⟨hstart, heval⟩ := heval
    have hsize : "1 + 2)".utf8ByteSize < UInt32.size - 1 := by decide
    obtain ⟨⟨answer, hanswer, habout⟩, _⟩ :=
      Builder.answers_of_build sumsOfNumbers lexicon.automaton hp hsize hstart
    split at heval
    · next e he =>
      obtain rfl := Except.ok.inj (hanswer.symm.trans he)
      exact ⟨p, e, hp, hstart, he, habout e rfl⟩
    · cases heval
    · cases heval
  · cases heval
  · cases heval

end Script

end Descent
