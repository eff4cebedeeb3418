import Descent.Proofs.Grammar.LeftRecursion
import Descent.Proofs.Lexical.Places
import Descent.Proofs.Parser.Extraction
import Descent.Script

/-!
# Building reports every defect once

What can be wrong with a builder is said here without building anything. A production
has a defect if its text is no rule text, or if it declares an operator that cannot be
meant (`Production.HasDefect`). Without such productions there is a grammar, and what
is wrong with it is a matter of the names that are declared, of those that are
mentioned, of the clauses that stand in rules, of the names that begin with
themselves, and of the lexer (`Builder.Findings`).

Building reports this and nothing else, each defect once and in a fixed order, and
gives a parser exactly where there is none (`Builder.build_exact`).
-/

namespace Descent

variable {K α : Type} [TokenKind K]

/-! ## Reading rule texts -/

/-- **Reading a rule text comes to an answer** if it is not too long. -/
theorem RuleText.exists_parse {text : String}
    (h : text.utf8ByteSize < UInt32.size - 1) :
    ∃ answer, parse (K := K) text = .ok answer := by
  have hfits : text.utf8ByteSize + 1 < UInt32.size := by omega
  rcases lexicon.automaton.read_places hfits with ⟨tokens, hread, -⟩ | ⟨e, hread, -⟩
  · rw [Lexicon.lexer_automaton] at hread
    rcases Matcher.tree_or_unexpected_of_parse (m := matcher K tokens)
      isLeftRecursive_grammar contains_root with ⟨tree, htree⟩ | ⟨e, he⟩
    · obtain ⟨part, hspells, hreduce, -⟩ := spells_of_parse htree
      obtain ⟨d, rfl⟩ := hspells.fits
      exact ⟨_, parse_of_tree hread htree hreduce⟩
    · exact ⟨_, parse_of_error hread he⟩
  · rw [Lexicon.lexer_automaton] at hread
    exact ⟨.error (.lexical e), by
      simp [parse, hread, bind, Except.bind, pure, Except.pure]⟩

/-! ## Productions with defects -/

/-- **An operator declaration cannot be meant**, for a reason. -/
inductive OperatorDeclaration.IsInvalid (K : Type) [TokenKind K] (catalog : Catalog)
    (d : OperatorDeclaration) : String → Prop
  /-- The symbol is no kind of token. -/
  | symbol :
      TokenKind.ofName? (K := K) d.symbol = none →
      IsInvalid K catalog d (catalog.text .notAKind [d.symbol])
  /-- The symbol is one, but the precedence is no number that fits its word. -/
  | precedence {kind : K} :
      TokenKind.ofName? d.symbol = some kind →
      (∀ n, decimal? d.precedence.toList = some n → UInt32.size ≤ n) →
      IsInvalid K catalog d (catalog.text .invalidPrecedence [d.precedence])
  /-- Both are in order, but an operator with one operand is given a direction. -/
  | associativity {kind : K} {n : Nat} {a : Associativity} :
      TokenKind.ofName? d.symbol = some kind →
      decimal? d.precedence.toList = some n → n < UInt32.size →
      d.affix ≠ .infixOp → d.associativity = some a →
      IsInvalid K catalog d (catalog.text .unaryAssociativity [d.affix.display])

/-- **A production has a defect**, which is reported so. -/
inductive Production.HasDefect (catalog : Catalog) (p : Production K α) :
    BuildError → Prop
  /-- The text is no rule text. -/
  | malformed {e : ParseError RuleKind} :
      RuleText.parse (K := K) p.text = .ok (.error e) →
      HasDefect catalog p ⟨.malformedRule, .fatal,
        catalog.text .malformedRule [p.text, e.text catalog]⟩
  /-- The operator that it declares cannot be meant. -/
  | invalidOperator {head reason : String} {d : OperatorDeclaration} :
      RuleText.parse (K := K) p.text = .ok (.ok ⟨head, .operator d⟩) →
      d.IsInvalid K catalog reason →
      HasDefect catalog p ⟨.invalidOperator, .fatal,
        catalog.text .invalidOperator [p.text, reason]⟩

/-- **Each production with a defect is reported once**, in order, and no other. -/
inductive Production.Reported (catalog : Catalog) :
    List (Production K α) → List BuildError → Prop
  /-- Without productions nothing is reported. -/
  | nil : Reported catalog [] []
  /-- Nothing is reported of a production without a defect. -/
  | sound {p : Production K α} {ps : List (Production K α)}
      {errors : List BuildError} :
      (∀ e, ¬ p.HasDefect catalog e) → Reported catalog ps errors →
      Reported catalog (p :: ps) errors
  /-- A defect is reported. -/
  | defect {p : Production K α} {ps : List (Production K α)} {e : BuildError}
      {errors : List BuildError} :
      p.HasDefect catalog e → Reported catalog ps errors →
      Reported catalog (p :: ps) (e :: errors)

namespace Builder

variable {catalog : Catalog} {p : Production K α} {d : OperatorDeclaration}
  {reason : String} {e : BuildError}

/-- A number below a bound is a number, and below the bound. -/
theorem decimalBelow?_eq_some_iff {bound n : Nat} {cs : List Char} :
    decimalBelow? bound cs = some n ↔ decimal? cs = some n ∧ n < bound := by
  rw [decimalBelow?, Option.filter_eq_some_iff, decide_eq_true_eq]

theorem decimalBelow?_eq_none_iff {bound : Nat} {cs : List Char} :
    decimalBelow? bound cs = none ↔ ∀ n, decimal? cs = some n → bound ≤ n := by
  rw [decimalBelow?, Option.filter_eq_none_iff]
  simp

/-- **What is said about an operator declaration** is why it cannot be meant. -/
theorem operationOf_eq_error_iff :
    operationOf (K := K) catalog d = .error reason ↔ d.IsInvalid K catalog reason := by
  constructor
  · intro h
    unfold operationOf at h
    split at h
    · next hsymbol =>
      obtain rfl := Except.error.inj h
      exact .symbol hsymbol
    · next kind hsymbol =>
      split at h
      · next hprecedence =>
        obtain rfl := Except.error.inj h
        exact .precedence hsymbol (decimalBelow?_eq_none_iff.mp hprecedence)
      · next n hprecedence =>
        obtain ⟨hn, hlt⟩ := decimalBelow?_eq_some_iff.mp hprecedence
        dsimp only at h
        split at h
        · cases h
        · cases h
        · cases h
        · next a ha haffix =>
          obtain rfl := Except.error.inj h
          exact .associativity hsymbol hn hlt haffix ha
  · intro h
    unfold operationOf
    cases h with
    | symbol hsymbol => rw [hsymbol]
    | precedence hsymbol hprecedence =>
      rw [hsymbol]
      simp only [decimalBelow?_eq_none_iff.mpr hprecedence]
    | associativity hsymbol hn hlt haffix ha =>
      rw [hsymbol]
      simp only [decimalBelow?_eq_some_iff.mpr ⟨hn, hlt⟩, ha]

/-- **What is found wrong with a production is its defect.** -/
theorem defect?_eq_some_iff :
    p.defect? catalog = some e ↔ p.HasDefect catalog e := by
  constructor
  · intro h
    cases hparse : RuleText.parse (K := K) p.text with
    | error fault => simp [Production.defect?, hparse] at h
    | ok answer =>
      rw [defect?_eq hparse (.empty "")] at h
      obtain error | ⟨head, branches | d⟩ := answer
      · obtain rfl := Option.some.inj h
        exact .malformed hparse
      · cases h
      · simp only [addDeclaration] at h
        cases hop : operationOf (K := K) catalog d with
        | ok meant => simp [hop] at h
        | error reason =>
          simp only [hop, Option.some.injEq] at h
          subst h
          exact .invalidOperator hparse (operationOf_eq_error_iff.mp hop)
  · intro h
    cases h with
    | malformed hparse =>
      rw [defect?_eq hparse (.empty "")]
      rfl
    | invalidOperator hparse hinvalid =>
      rw [defect?_eq hparse (.empty "")]
      simp only [addDeclaration, operationOf_eq_error_iff.mpr hinvalid]

/-- What is found wrong with productions is reported of them. -/
theorem reported_filterMap (catalog : Catalog) (ps : List (Production K α)) :
    Production.Reported catalog ps (ps.filterMap (·.defect? catalog)) := by
  induction ps with
  | nil => exact .nil
  | cons p ps ih =>
    cases h : p.defect? catalog with
    | none =>
      rw [List.filterMap_cons_none h]
      refine .sound (fun e he => ?_) ih
      rw [defect?_eq_some_iff.mpr he] at h
      cases h
    | some e =>
      rw [List.filterMap_cons_some h]
      exact .defect (defect?_eq_some_iff.mp h) ih

theorem filterMap_defect?_eq_nil_iff {ps : List (Production K α)} :
    ps.filterMap (·.defect? catalog) = [] ↔
      ∀ p ∈ ps, ∀ e, ¬ p.HasDefect catalog e := by
  simp only [List.filterMap_eq_nil_iff, Option.eq_none_iff_forall_ne_some, ne_eq,
    defect?_eq_some_iff]

/-! ## What a builder's productions declare -/

variable {b : Builder K α} {style : Style} {root x y : String}

/-- **A name is declared** by some production. -/
def DeclaresName (b : Builder K α) (x : String) : Prop :=
  ∃ p ∈ b.productions, ∃ d : Declaration K,
    RuleText.parse p.text = .ok (.ok d) ∧ d.name = x

/-- **A name mentions another** somewhere in the branches that are declared for
it. -/
def Refers (b : Builder K α) (x y : String) : Prop :=
  ∃ p ∈ b.productions, ∃ branches : List (List (Clause K)),
    RuleText.parse p.text = .ok (.ok ⟨x, .branches branches⟩) ∧
      ∃ clauses ∈ branches, ∃ c ∈ clauses, c.Mentions y

/-- The grammar that the productions of a builder declare. -/
def grammar (b : Builder K α) (root : String) : Grammar K α :=
  grammarOf b.catalog root (entriesOf b.productions)

theorem mem_entriesOf_iff {ps : List (Production K α)} {d : Declaration K} :
    (p, d) ∈ entriesOf ps ↔ p ∈ ps ∧ RuleText.parse p.text = .ok (.ok d) := by
  have hdeclaration (q : Production K α) (d : Declaration K) :
      q.declaration? = some d ↔ RuleText.parse q.text = .ok (.ok d) := by
    unfold Production.declaration?
    split <;> simp_all
  simp only [entriesOf, List.mem_filterMap, Option.map_eq_some_iff, Prod.mk.injEq,
    hdeclaration]
  constructor
  · rintro ⟨_, hp, _, hd, rfl, rfl⟩
    exact ⟨hp, hd⟩
  · rintro ⟨hp, hd⟩
    exact ⟨p, hp, d, hd, rfl, rfl⟩

theorem contains_grammar_iff (root : String) :
    (b.grammar root).contains x = true ↔ b.DeclaresName x := by
  have hnames : (b.grammar root).names = headsOf (entriesOf b.productions) := by
    rw [Grammar.names, grammar, grammarOf, List.map_map]
    exact List.map_id _
  rw [Grammar.contains_iff_mem_names, hnames, mem_headsOf_iff]
  constructor
  · rintro ⟨⟨p, d⟩, hmem, rfl⟩
    obtain ⟨hp, hparse⟩ := mem_entriesOf_iff.mp hmem
    exact ⟨p, hp, d, hparse, rfl⟩
  · rintro ⟨p, hp, d, hparse, rfl⟩
    exact ⟨(p, d), mem_entriesOf_iff.mpr ⟨hp, hparse⟩, rfl⟩

theorem mem_rules_iff {es : List (Entry K α)} {rule : Rule K α} :
    rule ∈ (nonTerminalOf catalog es x).rules ↔
      ∃ e ∈ es, e.2.name = x ∧ rule ∈ e.1.rules e.2.body := by
  simp [nonTerminalOf, and_assoc]

/-- **The mentions in the grammar** are those in what is declared. -/
theorem mem_mentions_grammar_iff :
    (x, y) ∈ (b.grammar root).mentions ↔ b.Refers x y := by
  rw [Grammar.mem_mentions_iff]
  constructor
  · rintro ⟨n, hn, rfl, rule, hrule, c, hc, hy⟩
    obtain ⟨x, -, rfl⟩ := List.mem_map.mp hn
    obtain ⟨⟨p, head, body⟩, hmem, rfl, hbody⟩ := mem_rules_iff.mp hrule
    obtain ⟨hp, hparse⟩ := mem_entriesOf_iff.mp hmem
    cases body with
    | operator d => exact absurd hbody List.not_mem_nil
    | branches branches =>
      obtain ⟨clauses, hclauses, rfl⟩ := List.mem_map.mp hbody
      exact ⟨p, hp, branches, hparse, clauses, hclauses, c, hc, hy⟩
  · rintro ⟨p, hp, branches, hparse, clauses, hclauses, c, hc, hy⟩
    have hmem : (p, _) ∈ entriesOf b.productions := mem_entriesOf_iff.mpr ⟨hp, hparse⟩
    have hx : x ∈ headsOf (entriesOf b.productions) :=
      mem_headsOf_iff.mpr ⟨_, hmem, rfl⟩
    refine ⟨_, List.mem_map_of_mem hx, rfl, ruleOf p clauses,
      mem_rules_iff.mpr ⟨_, hmem, rfl, List.mem_map_of_mem hclauses⟩, c, hc, hy⟩

/-! ## What is wrong with the whole -/

/-- One error if something holds, and none if not. -/
def OneIff (P : Prop) (e : BuildError) (errors : List BuildError) : Prop :=
  (P → errors = [e]) ∧ (¬ P → errors = [])

/-- **What is wrong with what is declared**, sort by sort. -/
structure Findings (b : Builder K α) (style : Style) (root : String)
    (starts references styles recursions lexers : List BuildError) : Prop where
  /-- One error if the root is not declared. -/
  starts : OneIff (¬ b.DeclaresName root)
    ⟨.missingStart, .error, b.catalog.text .missingStart [root]⟩ starts
  /-- One error for each pair of a name and a name that it mentions and that is not
  declared, in the order of first mentions. -/
  references : ∃ pairs : List (String × String),
    references = pairs.map (fun (x, y) =>
      ⟨.undefinedName, .error, b.catalog.text .undefinedName [y, x]⟩) ∧
    pairs.Nodup ∧
    (∀ x y, (x, y) ∈ pairs ↔ b.Refers x y ∧ ¬ b.DeclaresName y) ∧
    pairs.Pairwise fun q r =>
      (b.grammar root).mentions.idxOf q < (b.grammar root).mentions.idxOf r
  /-- In the plain style, one error for each rule with a clause that is neither a
  token nor a reference, in the order of the rules. -/
  styles : styles = match style with
    | .ebnf => []
    | .plain =>
      ((b.grammar root).rules.filter fun r => ∃ c ∈ r.clauses, c.isPlain = false).map
        fun r => ⟨.ebnfInPlain, .error, b.catalog.text .ebnfInPlain [r.text]⟩
  /-- One error if a name begins with itself. -/
  recursions : OneIff (∃ x, (b.grammar root).BeginsWith x x)
    ⟨.leftRecursion, .fatal, b.catalog.text .leftRecursion
      [Grammar.renderCycles (b.grammar root).leftCycles]⟩ recursions
  /-- One error if there is no lexer. -/
  lexers : lexers = match b.lexer with
    | .ready _ => []
    | .failed reason =>
      [⟨.lexerFailed, .error, b.catalog.text .lexerFailed [reason]⟩]
    | .missing => [⟨.lexerFailed, .error, b.catalog.text .missingLexer []⟩]

/-- **Nothing is wrong with a builder.** -/
structure IsFaultless (b : Builder K α) (style : Style) (root : String) : Prop where
  /-- No production has a defect. -/
  productions : ∀ p ∈ b.productions, ∀ e, ¬ p.HasDefect b.catalog e
  /-- The root is declared. -/
  start : b.DeclaresName root
  /-- What is mentioned is declared. -/
  references : ∀ x y, b.Refers x y → b.DeclaresName y
  /-- In the plain style all clauses are tokens and references. -/
  style : style = .plain →
    ∀ r ∈ (b.grammar root).rules, ∀ c ∈ r.clauses, c.isPlain = true
  /-- No name begins with itself. -/
  recursion : ∀ x, ¬ (b.grammar root).BeginsWith x x
  /-- There is a lexer. -/
  lexer : ∃ lexer, b.lexer = .ready lexer

theorem not_declaresName_iff (root : String) :
    ¬ b.DeclaresName x ↔ (b.grammar root).contains x = false := by
  rw [← contains_grammar_iff root, Bool.not_eq_true]

/-- What is reported of the lexer. -/
def lexerErrors (b : Builder K α) : List BuildError :=
  match b.lexerOf with
  | .ok _ => []
  | .error e => [e]

/-- **Validation finds what is wrong with what is declared.** -/
theorem findings (b : Builder K α) (style : Style) (root : String) :
    b.Findings style root (startErrors b.catalog (b.grammar root))
      (referenceErrors b.catalog (b.grammar root))
      (styleErrors b.catalog style (b.grammar root))
      (recursionErrors b.catalog (b.grammar root)) b.lexerErrors where
  starts := by
    have hstart : (b.grammar root).start = root := rfl
    rw [not_declaresName_iff root, startErrors, hstart]
    constructor <;> intro h
    · rw [h]
      rfl
    · rw [if_pos (by simpa using h)]
  references := by
    refine ⟨(b.grammar root).undefinedReferences, rfl,
      Grammar.nodup_undefinedReferences, fun x y => ?_,
      Grammar.pairwise_undefinedReferences⟩
    rw [Grammar.mem_undefinedReferences_iff, mem_mentions_grammar_iff,
      ← not_declaresName_iff root]
  styles := by
    cases style with
    | ebnf => rfl
    | plain =>
      have hplain (r : Rule K α) :
          (!r.isPlain) = decide (∃ c ∈ r.clauses, c.isPlain = false) := by
        rw [Bool.eq_iff_iff, Bool.not_eq_true', Rule.isPlain_eq_false_iff,
          decide_eq_true_eq]
      simp only [styleErrors, hplain]
  recursions := by
    simp only [Grammar.beginsWith_iff, ← Grammar.isLeftRecursive_iff_leadsTo,
      recursionErrors]
    exact ⟨fun h => if_pos h, fun h => if_neg h⟩
  lexers := by
    unfold lexerErrors lexerOf
    cases b.lexer <;> rfl

/-! ## The verdict -/

theorem OneIff.eq_nil_iff {P : Prop} {errors : List BuildError}
    (h : OneIff P e errors) : errors = [] ↔ ¬ P := by
  refine ⟨fun hnil hP => ?_, h.2⟩
  rw [h.1 hP] at hnil
  cases hnil

/-- **Nothing is found exactly where nothing is wrong.** -/
theorem Findings.eq_nil_iff
    {starts references styles recursions lexers : List BuildError}
    (h : b.Findings style root starts references styles recursions lexers)
    (hproductions : ∀ p ∈ b.productions, ∀ e, ¬ p.HasDefect b.catalog e) :
    starts ++ references ++ styles ++ recursions ++ lexers = [] ↔
      b.IsFaultless style root := by
  obtain ⟨pairs, hpairs, -, hmem, -⟩ := h.references
  have hstart := h.starts.eq_nil_iff
  have hrecursion := h.recursions.eq_nil_iff
  have hreferences : references = [] ↔ ∀ x y, b.Refers x y → b.DeclaresName y := by
    rw [hpairs, List.map_eq_nil_iff, List.eq_nil_iff_forall_not_mem]
    exact ⟨fun hnone x y hxy => by_contra fun hy => hnone _ ((hmem x y).mpr ⟨hxy, hy⟩),
      fun hall q hq => ((hmem q.1 q.2).mp hq).2 (hall q.1 q.2 ((hmem q.1 q.2).mp hq).1)⟩
  have hstyle : styles = [] ↔ (style = .plain →
      ∀ r ∈ (b.grammar root).rules, ∀ c ∈ r.clauses, c.isPlain = true) := by
    rw [h.styles]
    cases style with
    | ebnf => simp
    | plain => simp [List.filter_eq_nil_iff]
  have hlexer : lexers = [] ↔ ∃ lexer, b.lexer = .ready lexer := by
    rw [h.lexers]
    cases b.lexer <;> simp
  simp only [List.append_eq_nil_iff, hstart, hreferences, hstyle, hrecursion, hlexer,
    not_not, not_exists]
  constructor
  · rintro ⟨⟨⟨⟨hs, hr⟩, hst⟩, hrec⟩, hl⟩
    exact ⟨hproductions, hs, hr, hst, hrec, hl⟩
  · intro hf
    exact ⟨⟨⟨⟨hf.start, hf.references⟩, hf.style⟩, hf.recursion⟩, hf.lexer⟩

variable {g : Grammar K α} {errors : List BuildError}

/-- Errors of extraction are the answer. -/
theorem build_of_extract_error (h : b.extract root = .ok (g, errors))
    (hne : errors ≠ []) : b.build style root = .ok (.error errors) := by
  simp [build, h, hne, bind, Except.bind, pure, Except.pure]

/-- Without them the answer is what validation and the lexer say. -/
theorem build_of_extract (style : Style) (h : b.extract root = .ok (g, [])) :
    (validate b.catalog style g ++ b.lexerErrors ≠ [] →
      b.build style root =
        .ok (.error (validate b.catalog style g ++ b.lexerErrors))) ∧
    (validate b.catalog style g ++ b.lexerErrors = [] →
      ∃ lexer, b.lexer = .ready lexer ∧
        b.build style root = .ok (.ok ⟨style, g, lexer, b.catalog⟩)) := by
  cases hl : b.lexer with
  | ready lexer =>
    have hnone : b.lexerErrors = [] := by simp [lexerErrors, lexerOf, hl]
    rw [hnone, List.append_nil]
    refine ⟨fun hne => ?_, fun hnil => ⟨lexer, rfl, ?_⟩⟩
    · simp [build, h, lexerOf, hl, hne, bind, Except.bind, pure, Except.pure]
    · simp [build, h, lexerOf, hl, hnil, bind, Except.bind, pure, Except.pure]
  | failed reason | missing =>
    refine ⟨fun _ => ?_, fun hnil => ?_⟩
    · simp [build, h, lexerErrors, lexerOf, hl, bind, Except.bind, pure, Except.pure]
    · simp [lexerErrors, lexerOf, hl] at hnil

/-- **Extraction gives the grammar that is declared**, unless a production has a
defect. -/
theorem extract_eq {answer : Grammar K α × List BuildError}
    (h : b.extract root = .ok answer) :
    answer.2 = b.productions.filterMap (·.defect? b.catalog) ∧
      (answer.2 = [] → answer.1 = b.grammar root) := by
  have hempty : (.empty root : Grammar K α) = grammarOf b.catalog root [] :=
    Grammar.ext_of_nonTerminals rfl rfl
  rw [extract, hempty] at h
  exact extractFrom_eq h

variable {answer : Except (List BuildError) (Parser K α)}

/-- An answer comes from what was extracted. -/
theorem exists_extract_of_build (h : b.build style root = .ok answer) :
    ∃ extracted, b.extract root = .ok extracted := by
  cases hx : b.extract root with
  | error fault => simp [build, hx, bind, Except.bind] at h
  | ok extracted => exact ⟨extracted, rfl⟩

/-- **There is an answer** exactly if each rule text can be gone through. -/
theorem exists_build_iff :
    (∃ answer, b.build style root = .ok answer) ↔
      ∀ p ∈ b.productions, ∃ answer, RuleText.parse (K := K) p.text = .ok answer := by
  have hextract : (∃ answer, b.extract root = .ok answer) ↔ _ := exists_extractFrom_iff
  rw [← hextract]
  refine ⟨fun ⟨_, h⟩ => exists_extract_of_build h, ?_⟩
  rintro ⟨⟨g, errors⟩, hx⟩
  by_cases hne : errors = []
  · subst hne
    by_cases hnil : validate b.catalog style g ++ b.lexerErrors = []
    · obtain ⟨lexer, -, hbuild⟩ := (build_of_extract style hx).2 hnil
      exact ⟨_, hbuild⟩
    · exact ⟨_, (build_of_extract style hx).1 hnil⟩
  · exact ⟨_, build_of_extract_error hx hne⟩

/-- **If productions have defects**, these are reported and nothing else. -/
theorem reported_of_build (h : b.build style root = .ok answer)
    (hdefect : ∃ p ∈ b.productions, ∃ e, p.HasDefect b.catalog e) :
    ∃ errors, answer = .error errors ∧
      Production.Reported b.catalog b.productions errors := by
  obtain ⟨⟨g, errors⟩, hx⟩ := exists_extract_of_build h
  have herrors : errors = _ := (extract_eq hx).1
  have hne : errors ≠ [] := fun hnil => by
    obtain ⟨p, hp, e, he⟩ := hdefect
    exact filterMap_defect?_eq_nil_iff.mp (herrors.symm.trans hnil) p hp e he
  have hanswer := h.symm.trans (build_of_extract_error hx hne)
  exact ⟨errors, Except.ok.inj hanswer, herrors ▸ reported_filterMap ..⟩

/-- **If none has**, the answer is what is wrong with what is declared, or the
parser. -/
theorem findings_of_build (h : b.build style root = .ok answer)
    (hproductions : ∀ p ∈ b.productions, ∀ e, ¬ p.HasDefect b.catalog e) :
    ∃ starts references styles recursions lexers,
      b.Findings style root starts references styles recursions lexers ∧
      let errors := starts ++ references ++ styles ++ recursions ++ lexers
      (errors ≠ [] → answer = .error errors) ∧
      (errors = [] → ∃ lexer, b.lexer = .ready lexer ∧
        answer = .ok ⟨style, b.grammar root, lexer, b.catalog⟩) := by
  obtain ⟨⟨g, errors⟩, hx⟩ := exists_extract_of_build h
  obtain ⟨herrors, hg⟩ := extract_eq hx
  obtain rfl : errors = [] :=
    herrors.trans (filterMap_defect?_eq_nil_iff.mpr hproductions)
  obtain rfl : g = _ := hg rfl
  obtain ⟨hwrong, hfine⟩ := build_of_extract style hx
  refine ⟨_, _, _, _, _, findings b style root, fun hne => ?_, fun hnil => ?_⟩
  · exact Except.ok.inj (h.symm.trans (hwrong hne))
  · obtain ⟨lexer, hlexer, hbuild⟩ := hfine hnil
    exact ⟨lexer, hlexer, Except.ok.inj (h.symm.trans hbuild)⟩

/-- **Building reports every defect once**, and gives a parser where there is none.
There is an answer exactly if each rule text can be gone through, as each can that
has fewer bytes than the largest word. Every answer is a parser exactly if nothing is
wrong. If productions have defects, these and nothing else are reported, one for each
such production in order. If none has, the answer is what is wrong with what is
declared, sort after sort: the root that is not declared, the names that are mentioned
and not declared, in the plain style the rules that it does not know, left recursion,
and the lexer that is not there. Only if that is nothing it is the parser for the
grammar that is declared. -/
theorem build_exact (b : Builder K α) (style : Style) (root : String) :
    ((∃ answer, b.build style root = .ok answer) ↔
      ∀ p ∈ b.productions, ∃ answer, RuleText.parse (K := K) p.text = .ok answer) ∧
    (∀ text : String, text.utf8ByteSize < UInt32.size - 1 →
      ∃ answer, RuleText.parse (K := K) text = .ok answer) ∧
    ∀ answer, b.build style root = .ok answer →
      ((∃ parser, answer = .ok parser) ↔ b.IsFaultless style root) ∧
      ((∃ p ∈ b.productions, ∃ e, p.HasDefect b.catalog e) →
        ∃ errors, answer = .error errors ∧
          Production.Reported b.catalog b.productions errors) ∧
      ((∀ p ∈ b.productions, ∀ e, ¬ p.HasDefect b.catalog e) →
        ∃ starts references styles recursions lexers,
          b.Findings style root starts references styles recursions lexers ∧
          let errors := starts ++ references ++ styles ++ recursions ++ lexers
          (errors ≠ [] → answer = .error errors) ∧
          (errors = [] → ∃ lexer, b.lexer = .ready lexer ∧
            answer = .ok ⟨style, b.grammar root, lexer, b.catalog⟩)) := by
  refine ⟨exists_build_iff, fun _ => RuleText.exists_parse, fun answer h =>
    ⟨⟨?_, fun hfaultless => ?_⟩, reported_of_build h, findings_of_build h⟩⟩
  · rintro ⟨parser, rfl⟩
    -- a parser is no answer where a production has a defect
    have hproductions : ∀ p ∈ b.productions, ∀ e, ¬ p.HasDefect b.catalog e := by
      intro p hp e he
      obtain ⟨errors, herrors, -⟩ := reported_of_build h ⟨p, hp, e, he⟩
      cases herrors
    obtain ⟨_, _, _, _, _, hfindings, hwrong, -⟩ := findings_of_build h hproductions
    refine (hfindings.eq_nil_iff hproductions).mp (by_contra fun hne => ?_)
    cases hwrong hne
  · obtain ⟨_, _, _, _, _, hfindings, -, hfine⟩ :=
      findings_of_build h hfaultless.productions
    obtain ⟨lexer, -, hanswer⟩ :=
      hfine ((hfindings.eq_nil_iff hfaultless.productions).mpr hfaultless)
    exact ⟨_, hanswer⟩

end Builder

namespace Script

/-- A production in which much is wrong as soon as it is asked to start elsewhere, in
the plain style and without a lexer. -/
def tangledSum : Builder ScriptKind Unit :=
  Builder.empty.production "sum" "sum : sum PLUS term | NUM*" fun _ => ()

/-- A text that breaks off, a precedence that is too large, and a rule. -/
def misspelledSum : Builder ScriptKind Unit :=
  ((Builder.empty.production "sum" "sum : (" fun _ => ()).production "sum"
    "sum : %infix PLUS 4294967296" fun _ => ()).production "sum" "sum : NUM" fun _ => ()

/-- The answer is errors of some codes. -/
def isRefused (codes : List Code) :
    Except (List BuildError) (Parser ScriptKind Unit) → Bool
  | .error errors => errors.map (·.code) = codes
  | .ok _ => false

theorem exists_errors_of_isRefused {b : Builder ScriptKind Unit} {style : Style}
    {root : String} {codes : List Code}
    {answer : Except (List BuildError) (Parser ScriptKind Unit)}
    (hbuild : b.build style root = .ok answer)
    (hrefused : (b.build style root).toOption.map (isRefused codes) = some true) :
    ∃ errors, answer = .error errors ∧ errors.map (·.code) = codes := by
  rw [hbuild] at hrefused
  have hcodes : isRefused codes answer = true := Option.some.inj hrefused
  cases answer with
  | error errors => exact ⟨errors, rfl, of_decide_eq_true hcodes⟩
  | ok parser => cases hcodes

/-- **Both are refused**, the one with five errors about what is declared, the other
with one for each of two productions. -/
theorem tangledSum_build :
    (∃ errors, tangledSum.build .plain "expr" = .ok (.error errors) ∧
      errors.map (·.code) =
        [.missingStart, .undefinedName, .ebnfInPlain, .leftRecursion, .lexerFailed] ∧
      ∃ starts references styles recursions lexers,
        tangledSum.Findings .plain "expr" starts references styles recursions lexers ∧
        errors = starts ++ references ++ styles ++ recursions ++ lexers) ∧
    ∃ errors, misspelledSum.build .ebnf "sum" = .ok (.error errors) ∧
      errors.map (·.code) = [.malformedRule, .invalidOperator] ∧
      Production.Reported misspelledSum.catalog misspelledSum.productions errors := by
  constructor
  · obtain ⟨hanswer, hshort, hexact⟩ :=
      Builder.build_exact tangledSum .plain "expr"
    obtain ⟨answer, hbuild⟩ := hanswer.mpr fun p hp => hshort p.text (by
      revert p
      decide)
    obtain ⟨errors, rfl, hcodes⟩ : ∃ errors, answer = .error errors ∧
        errors.map (·.code) = [.missingStart, .undefinedName, .ebnfInPlain,
          .leftRecursion, .lexerFailed] :=
      exists_errors_of_isRefused hbuild (by decide +kernel)
    have hnone : ∀ p ∈ tangledSum.productions, ∀ e,
        ¬ p.HasDefect tangledSum.catalog e :=
      Builder.filterMap_defect?_eq_nil_iff.mp (by decide +kernel)
    obtain ⟨-, -, hfindings⟩ := hexact _ hbuild
    obtain ⟨_, _, _, _, _, hfindings, hwrong, hfine⟩ := hfindings hnone
    refine ⟨errors, hbuild, hcodes, _, _, _, _, _, hfindings,
      Except.error.inj (hwrong fun hnil => ?_)⟩
    obtain ⟨_, _, hanswer⟩ := hfine hnil
    cases hanswer
  · obtain ⟨hanswer, hshort, hexact⟩ :=
      Builder.build_exact misspelledSum .ebnf "sum"
    obtain ⟨answer, hbuild⟩ := hanswer.mpr fun p hp => hshort p.text (by
      revert p
      decide)
    obtain ⟨errors, rfl, hcodes⟩ : ∃ errors, answer = .error errors ∧
        errors.map (·.code) = [.malformedRule, .invalidOperator] :=
      exists_errors_of_isRefused hbuild (by decide +kernel)
    have hdefect : ∃ p ∈ misspelledSum.productions, ∃ e,
        p.HasDefect misspelledSum.catalog e := by
      by_contra hnone
      push Not at hnone
      have hnil := Builder.filterMap_defect?_eq_nil_iff.mpr hnone
      revert hnil
      decide +kernel
    obtain ⟨-, hreported, -⟩ := hexact _ hbuild
    obtain ⟨errors', herrors, hreported⟩ := hreported hdefect
    obtain rfl := Except.error.inj herrors
    exact ⟨errors, hbuild, hcodes, hreported⟩

end Script

end Descent
