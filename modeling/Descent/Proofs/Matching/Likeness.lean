import Descent.Proofs.Lexical.Words
import Descent.Proofs.Matching.Derivation
import Descent.Proofs.Matching.Expected

/-!
# Matchers that cannot tell their inputs apart

A matcher reads three things: the rules of its grammar, the tokens at the indices
that it comes to, and whether its style knows the clauses that it comes to. Two
matchers are alike on a sort of clauses (`Matcher.Alike`) if nothing of this
differs as long as only such clauses are met. Then every attempt of the one is an
attempt of the other, event by event (`Attempt.of_alike`), and both parse alike
(`Alike.parse_eq`).

Two comparisons come of it. Over plain rules the two styles know the same clauses,
so a plain grammar is matched by either style in one way
(`Matcher.parse_of_isPlain`). And a mark of the end is at no index, nor is
anything behind it, so a token list with a mark is parsed as the tokens before it
are (`Matcher.parse_of_endMark`).
-/

namespace Descent

variable {K α : Type}

/-- The clauses that a clause is made of. -/
def Clause.parts : Clause K → List (Clause K)
  | token .. | reference .. => []
  | group cs | choice cs => cs
  | optional b | star b | plus b => [b]

/-- All clauses that a goal begins with are of a sort. -/
def Goal.All (P : Clause K → Prop) : Goal K α → Prop
  | name _ => True
  | rules _ rs => ∀ rule ∈ rs, ∀ c ∈ rule.clauses, P c
  | sequence cs | choice cs => ∀ c ∈ cs, P c
  | clause c | iterations c => P c
  | expression head _ | climb head .. | operand head =>
    ∀ rule ∈ head.rules, ∀ c ∈ rule.clauses, P c

/-- An outcome is known by what was matched, however it is written down. -/
theorem Outcome.map_injective {β γ : Type} {f : β → γ}
    (hf : Function.Injective f) :
    Function.Injective (map f : Outcome K β → Outcome K γ) := by
  intro o o' h
  cases o with
  | exhausted => cases o' <;> cases h; rfl
  | failed r => cases o' <;> cases h; rfl
  | matched x r =>
    cases o' with
    | exhausted | failed => cases h
    | matched y r' =>
      rw [map_matched, map_matched, Outcome.matched.injEq] at h
      rw [hf h.1, h.2]

namespace Matcher

/-- **Two matchers are alike** on a sort of clauses: they have one grammar, whose
clauses are of the sort, they find the same tokens and the same end, and their
styles know the same clauses of the sort. -/
structure Alike (m m' : Matcher K α) (P : Clause K → Prop) : Prop where
  /-- They have one grammar. -/
  grammar : m'.grammar = m.grammar
  /-- They find the same token at every index. -/
  tokens : ∀ i, m'.tokens.get? i = m.tokens.get? i
  /-- Their texts end at one place. -/
  stop : m'.tokens.stop = m.tokens.stop
  /-- Their styles know the same clauses of the sort. -/
  style : ∀ c, P c → m'.style.allows c = m.style.allows c
  /-- The parts of a clause of the sort are of the sort. -/
  parts : ∀ c, P c → ∀ b ∈ c.parts, P b
  /-- All clauses of the grammar are of the sort. -/
  rules : m.grammar.AllRules fun _ clauses => ∀ c ∈ clauses, P c

variable {m m' : Matcher K α} {P : Clause K → Prop}

namespace Alike

theorem of_get? (h : m.Alike m' P) {x : String} {n : NonTerminal K α}
    (hx : m.grammar.get? x = some n) :
    ∀ rule ∈ n.rules, ∀ c ∈ rule.clauses, P c :=
  h.rules n (List.mem_of_find?_eq_some hx)

theorem get? (h : m.Alike m' P) (x : String) :
    m'.grammar.get? x = m.grammar.get? x := by
  rw [h.grammar]

/-- The body of an option or a repetition is of the sort. -/
theorem body (h : m.Alike m' P) {c b : Clause K} (hc : P c)
    (hparts : c.parts = [b]) : P b :=
  h.parts c hc b (hparts ▸ List.mem_cons_self)

/-- A clause that the one style knows is known to the other. -/
theorem allows (h : m.Alike m' P) {c : Clause K} (hc : P c)
    (ha : m.style.allows c = true) : m'.style.allows c = true :=
  (h.style c hc).trans ha

theorem length_eq (h : m.Alike m' P) : m'.tokens.length = m.tokens.length := by
  refine Nat.le_antisymm ?_ ?_
  · rw [← TokenList.get?_eq_none_iff, h.tokens]
    exact TokenList.get?_eq_none_iff.mpr (Nat.le_refl _)
  · rw [← TokenList.get?_eq_none_iff, ← h.tokens]
    exact TokenList.get?_eq_none_iff.mpr (Nat.le_refl _)

theorem location_eq (h : m.Alike m' P) (i : Nat) :
    m'.tokens.location i = m.tokens.location i := by
  unfold TokenList.location TokenList.stopSpan
  rw [h.tokens, h.stop]

variable [DecidableEq K]

theorem leading?_eq (h : m.Alike m' P) (head : NonTerminal K α) (r : Run K) :
    m'.leading? head r = m.leading? head r := by
  unfold leading?
  rw [h.tokens]

theorem trailing?_eq (h : m.Alike m' P) (head : NonTerminal K α) (least : Nat)
    (r : Run K) : m'.trailing? head least r = m.trailing? head least r := by
  unfold trailing?
  rw [h.tokens]

theorem unexpected_eq (h : m.Alike m' P) (r : Run K) :
    m'.unexpected r = m.unexpected r := by
  unfold unexpected
  rw [h.tokens, h.location_eq]

end Alike

variable [DecidableEq K] [TokenKind K] {goal : Goal K α} {r : Run K}
  {o : Outcome K (List (Tree K α))} {start : String}

/-- **Every attempt of a matcher is one of a matcher that is alike.** -/
theorem Attempt.of_alike (h : m.Attempt goal r o) (hm : m.Alike m' P)
    (hgoal : goal.All P) : m'.Attempt goal r o := by
  induction h with
  | undeclared hx => exact .undeclared ((hm.get? _).trans hx)
  | head hx hh _ ih =>
    exact .head ((hm.get? _).trans hx) hh (ih (hm.of_get? hx))
  | plain hx hh _ ih =>
    exact .plain ((hm.get? _).trans hx) hh (ih (hm.of_get? hx))
  | noRule => exact .noRule
  | rule _ ih => exact .rule (ih (hgoal _ List.mem_cons_self))
  | nextRule _ _ ih ih' =>
    obtain ⟨hrule, hrules⟩ := List.forall_mem_cons.mp hgoal
    exact .nextRule (ih hrule) (ih' hrules)
  | done => exact .done
  | stuck _ ih => exact .stuck (ih (hgoal _ List.mem_cons_self))
  | andThen _ _ ih ih' =>
    obtain ⟨hc, hcs⟩ := List.forall_mem_cons.mp hgoal
    exact .andThen (ih hc) (ih' hcs)
  | refused ha => exact .refused ((hm.style _ hgoal).trans ha)
  | token ht hk => exact .token ((hm.tokens _).trans ht) hk
  | noToken ht => exact .noToken fun t h => ht t ((hm.tokens _).symm.trans h)
  | reference _ ih => exact .reference (ih trivial)
  | group ha _ ih => exact .group (hm.allows hgoal ha) (ih (hm.parts _ hgoal))
  | choice ha _ ih => exact .choice (hm.allows hgoal ha) (ih (hm.parts _ hgoal))
  | optional ha _ ih =>
    exact .optional (hm.allows hgoal ha) (ih (hm.body hgoal rfl))
  | optionalNone ha _ ih =>
    exact .optionalNone (hm.allows hgoal ha) (ih (hm.body hgoal rfl))
  | star ha _ ih => exact .star (hm.allows hgoal ha) (ih (hm.body hgoal rfl))
  | plusNone ha _ ih =>
    exact .plusNone (hm.allows hgoal ha) (ih (hm.body hgoal rfl))
  | plus ha _ _ ih ih' =>
    exact .plus (hm.allows hgoal ha) (ih (hm.body hgoal rfl))
      (ih' (hm.body (c := .plus _) hgoal rfl))
  | noBranch => exact .noBranch
  | branch _ ih => exact .branch (ih (hgoal _ List.mem_cons_self))
  | nextBranch _ _ ih ih' =>
    obtain ⟨hb, hbs⟩ := List.forall_mem_cons.mp hgoal
    exact .nextBranch (ih hb) (ih' hbs)
  | stop _ ih => exact .stop (ih hgoal)
  | still _ hlt ih => exact .still (ih hgoal) hlt
  | again _ hlt _ ih ih' => exact .again (ih hgoal) hlt (ih' hgoal)
  | noOperand _ ih => exact .noOperand (ih hgoal)
  | fromOperand _ _ ih ih' => exact .fromOperand (ih hgoal) (ih' hgoal)
  | noOperator ht => exact .noOperator ((hm.trailing?_eq _ _ _).trans ht)
  | postfixed ht hp _ ih =>
    exact .postfixed ((hm.trailing?_eq _ _ _).trans ht) hp (ih hgoal)
  | noRight ht hp _ ih =>
    exact .noRight ((hm.trailing?_eq _ _ _).trans ht) hp (ih hgoal)
  | infixed ht hp _ _ ih ih' =>
    exact .infixed ((hm.trailing?_eq _ _ _).trans ht) hp (ih hgoal) (ih' hgoal)
  | noPrefix ht _ ih => exact .noPrefix ((hm.leading?_eq _ _).trans ht) (ih hgoal)
  | prefixed ht _ ih => exact .prefixed ((hm.leading?_eq _ _).trans ht) (ih hgoal)
  | prefixNone ht _ _ ih ih' =>
    exact .prefixNone ((hm.leading?_eq _ _).trans ht) (ih hgoal) (ih' hgoal)

namespace Alike

/-- **Alike matchers run alike** against all tokens: the same moves, the same
expectations, the same match. -/
theorem matchAll_eq (h : m.Alike m' P) (hrec : m.grammar.isLeftRecursive = false)
    (start : String) : m'.matchAll start = m.matchAll start := by
  have hrec' : m'.grammar.isLeftRecursive = false := by rw [h.grammar, hrec]
  obtain ⟨o, _, hatt, _⟩ := exists_outcome hrec (.name start) .start
  have hmap := map_matchAll hrec hatt
  rw [← h.length_eq, ← map_matchAll hrec' (hatt.of_alike h trivial)] at hmap
  exact (Outcome.map_injective (fun _ _ => List.singleton_inj.mp) hmap).symm

/-- **Alike matchers parse alike**, and come to an answer. -/
theorem parse_eq (h : m.Alike m' P) (hrec : m.grammar.isLeftRecursive = false)
    (start : String) : m'.parse start = m.parse start := by
  unfold parse
  rw [h.grammar, h.matchAll_eq hrec]
  cases m.matchAll start with
  | exhausted | matched => rfl
  | failed r => simp only [h.unexpected_eq]

end Alike

/-! ## Styles -/

omit [DecidableEq K] [TokenKind K] in
/-- **Over a plain grammar the styles are alike**: both know all plain clauses, and
a plain clause has no parts. -/
theorem alike_of_isPlain {g : Grammar K α} (h : g.isPlain = true)
    (s s' : Style) (tokens : TokenList K) :
    (Matcher.mk g s tokens).Alike ⟨g, s', tokens⟩ (·.isPlain = true) where
  grammar := rfl
  tokens _ := rfl
  stop := rfl
  style c hc := by
    cases c with
    | token | reference => simp
    | group | choice | optional | star | plus => cases hc
  parts c hc := by
    cases c with
    | token | reference => exact fun _ hb => absurd hb List.not_mem_nil
    | group | choice | optional | star | plus => cases hc
  rules n hn rule hrule c hc := by
    have hmem : rule ∈ g.rules := List.mem_flatMap.mpr ⟨n, hn, hrule⟩
    exact List.all_eq_true.mp (List.all_eq_true.mp h rule hmem) c hc

/-- **On a plain grammar the two styles are interchangeable.** Without left
recursion, from every name and over all tokens, they go through the same run, with
every step back and every expectation in it, and come to the same answer: one tree
with its callbacks and marks, or one error with its place, its token and its
expected kinds. -/
theorem parse_of_isPlain {g : Grammar K α} (hplain : g.isPlain = true)
    (hrec : g.isLeftRecursive = false) (tokens : TokenList K) (start : String) :
    (Matcher.mk g .plain tokens).matchAll start =
        (Matcher.mk g .ebnf tokens).matchAll start ∧
      ∃ answer, (Matcher.mk g .plain tokens).parse start = .ok answer ∧
        (Matcher.mk g .ebnf tokens).parse start = .ok answer := by
  have halike := alike_of_isPlain hplain .ebnf .plain tokens
  obtain ⟨answer, hanswer⟩ := exists_answer (m := ⟨g, .ebnf, tokens⟩) hrec start
  exact ⟨halike.matchAll_eq hrec start, answer,
    (halike.parse_eq hrec start).trans hanswer, hanswer⟩

end Matcher

namespace Script

/-- A plain grammar of sums with a rule of nothing, a head, an operand in
parentheses that are discarded, and an operand that is not declared. -/
def plainSums : Grammar ScriptKind Unit where
  start := "sum"
  nonTerminals :=
    [⟨"sum",
      [.ofClauses "sum" [.reference "sign" false, .token .num false] fun _ => (),
        .ofClauses "sum"
          [.token .lparen true, .reference "sum" false, .token .rparen true]
          fun _ => (),
        .ofClauses "sum" [.reference "call" false] fun _ => ()],
      [.ofKind .plus (.infixOp 10 .left) fun _ => (),
        .ofKind .minus (.prefixOp 20) fun _ => ()]⟩,
      ⟨"sign",
      [.ofClauses "sign" [.token .bang true] fun _ => (),
        .ofClauses "sign" [] fun _ => ()], []⟩]
  names_nodup := by decide

theorem plainSums_parse :
    plainSums.isPlain = true ∧ plainSums.isLeftRecursive = false ∧
      ∃ answer, (Matcher.mk plainSums .plain onePlusTwo).parse "sum" = .ok answer ∧
        (Matcher.mk plainSums .ebnf onePlusTwo).parse "sum" = .ok answer :=
  have hplain : plainSums.isPlain = true := by decide
  have hrec : plainSums.isLeftRecursive = false := by decide +kernel
  ⟨hplain, hrec, (Matcher.parse_of_isPlain hplain hrec onePlusTwo "sum").2⟩

end Script

/-! ## Marks of the end -/

namespace TokenList

variable {ts : List (Token K)} {e : Token K}

/-- The tokens before a mark are those before the first mark. -/
theorem beforeMark_append (hts : ∀ t ∈ ts, t.isEndMark = false)
    (he : e.isEndMark = true) (junk : List (Token K)) :
    beforeMark (ts ++ e :: junk) = ts := by
  unfold beforeMark
  rw [List.takeWhile_append_of_pos fun t ht => by simp [hts t ht],
    List.takeWhile_cons_of_neg (by simp [he]), List.append_nil]

/-- A list with a mark ends at the mark. -/
theorem ofTokens_append (hts : ∀ t ∈ ts, t.isEndMark = false)
    (he : e.isEndMark = true) (junk : List (Token K)) :
    ofTokens (ts ++ e :: junk) =
      .ok (withStop (ts ++ e :: junk) e.position) := by
  have hnone : ts.find? (·.isEndMark) = none :=
    List.find?_eq_none.mpr fun t ht => by simp [hts t ht]
  have hstop : stopOf (ts ++ e :: junk) = .ok e.position := by
    simp [stopOf, List.find?_append, hnone, he]
  simp [ofTokens, hstop, bind, Except.bind, pure, Except.pure]

/-- Tokens whose ends have places can be given any end. -/
theorem ofTokensWithStop_eq (hts : ∀ t ∈ ts, t.isEndMark = false)
    (hfits : ∀ t ∈ ts, ∃ p, t.endPosition = .ok p) (stop : Position) :
    ofTokensWithStop ts stop = .ok (withStop ts stop) := by
  have hnone : ts.find? (·.isEndMark) = none :=
    List.find?_eq_none.mpr fun t ht => by simp [hts t ht]
  obtain ⟨p, hp⟩ : ∃ p, stopOf ts = .ok p := by
    rw [stopOf, hnone]
    cases hlast : ts.getLast? with
    | none => exact ⟨_, rfl⟩
    | some t => exact hfits t (List.mem_of_getLast? hlast)
  simp [ofTokensWithStop, ofTokens, hp, bind, Except.bind, pure, Except.pure,
    withStop]

end TokenList

namespace Matcher

variable {ts : List (Token K)} {e : Token K} {g : Grammar K α}

/-- **A mark and what follows it are not seen.** -/
theorem alike_of_endMark (g : Grammar K α) (s : Style)
    (hts : ∀ t ∈ ts, t.isEndMark = false) (he : e.isEndMark = true)
    (junk : List (Token K)) :
    (Matcher.mk g s (.withStop ts e.position)).Alike
      ⟨g, s, .withStop (ts ++ e :: junk) e.position⟩ fun _ => True where
  grammar := rfl
  tokens i := by
    rw [TokenList.get?_eq, TokenList.get?_eq, TokenList.toList_withStop,
      TokenList.toList_withStop, TokenList.beforeMark_append hts he,
      Lexicon.beforeMark_eq_self hts]
  stop := rfl
  style _ _ := rfl
  parts _ _ _ _ := trivial
  rules _ _ _ _ _ _ := trivial

/-- **An answer tells of some tokens and the end of their text only**: a tree has
these tokens, and an error is at one of them or at the end. -/
def TellsOf (ts : List (Token K)) (stop : Position) :
    Except (ParseError K) (Tree K α) → Prop
  | .ok tree => tree.tokens = ts
  | .error (.unexpected u) =>
    (∃ t ∈ ts, u.token = some t ∧ u.position = t.position ∧ u.span = t.span) ∨
      u.token = none ∧ u.position = stop ∧ u.span = .point stop.offset
  | .error (.unknownStart _) => True
  | .error (.lexical _) | .error (.missingCallback _) => False

variable [DecidableEq K] [TokenKind K]

/-- A parse tells of the tokens that can be matched. -/
theorem tellsOf_of_parse {m : Matcher K α} {start : String}
    {answer : Except (ParseError K) (Tree K α)} (h : m.parse start = .ok answer) :
    TellsOf m.tokens.toList m.tokens.stop answer := by
  cases answer with
  | ok tree => simpa [TellsOf, Tree.tokensAll] using tokensAll_of_parse h
  | error err =>
    unfold parse at h
    split at h
    · split at h
      · cases h
      · next r _ =>
        obtain rfl := Except.error.inj (Except.ok.inj h)
        simp only [TellsOf, unexpected, TokenList.location]
        cases ht : m.tokens.get? r.errorIndex with
        | none => exact .inr ⟨rfl, rfl, rfl⟩
        | some t =>
          rw [TokenList.get?_eq] at ht
          exact .inl ⟨t, List.mem_of_getElem? ht, rfl, rfl, rfl⟩
      · cases Except.ok.inj h
    · obtain rfl := Except.error.inj (Except.ok.inj h)
      trivial

/-- Matching against all tokens stays in the list. -/
theorem inside_matchAll (m : Matcher K α) (start : String) :
    (m.matchAll start).All (·.Inside m.tokens.length) :=
  (m.movesTo_matchAll start).imp fun _ => (Run.Inside.start m.tokens.length).movesTo

/-- **A mark of the end is as good as the end.** Let tokens be followed by a mark of
any kind and by anything else, marks or not. Then any grammar without left recursion
parses them, in either style and from every name, as it parses the tokens alone with
the place of the mark for their end. No step of the matching leaves the tokens, so
nothing at the mark or behind it is taken. The tree has the tokens before the mark
and no other, and an error is at one of them or at the place of the mark. -/
theorem parse_of_endMark {g : Grammar K α} (hrec : g.isLeftRecursive = false)
    (s : Style) {ts : List (Token K)} (hts : ∀ t ∈ ts, t.isEndMark = false)
    (hfits : ∀ t ∈ ts, ∃ p, t.endPosition = .ok p) {e : Token K}
    (he : e.isEndMark = true) (junk : List (Token K)) (start : String) :
    ∃ marked plain answer,
      TokenList.ofTokens (ts ++ e :: junk) = .ok marked ∧
      TokenList.ofTokensWithStop ts e.position = .ok plain ∧
      (Matcher.mk g s marked).parse start = .ok answer ∧
      (Matcher.mk g s plain).parse start = .ok answer ∧
      ((Matcher.mk g s marked).matchAll start).All (·.Inside ts.length) ∧
      TellsOf ts e.position answer := by
  have halike := alike_of_endMark g s hts he junk
  obtain ⟨answer, hanswer⟩ :=
    exists_answer (m := ⟨g, s, .withStop ts e.position⟩) hrec start
  refine ⟨_, _, answer, TokenList.ofTokens_append hts he junk,
    TokenList.ofTokensWithStop_eq hts hfits e.position,
    (halike.parse_eq hrec start).trans hanswer, hanswer, ?_, ?_⟩
  · have hlength : (TokenList.withStop (ts ++ e :: junk) e.position).length =
        ts.length := by
      rw [← TokenList.length_toList, TokenList.toList_withStop,
        TokenList.beforeMark_append hts he]
    rw [← hlength]
    exact inside_matchAll _ start
  · have htells := tellsOf_of_parse hanswer
    rwa [TokenList.toList_withStop, Lexicon.beforeMark_eq_self hts] at htells

end Matcher

namespace Script

/-- The first tokens of `1 +`. -/
def onePlusTokens : List (Token ScriptKind) :=
  [.unplaced .num "1", .unplaced .plus "+"]

/-- Behind a mark a number is not seen, although one is wanted there. -/
theorem onePlus_endMark :
    ∃ marked plain answer,
      TokenList.ofTokens (onePlusTokens ++
        [.endMark .semi ⟨1, 4, 3⟩, .unplaced .num "2"]) = .ok marked ∧
      TokenList.ofTokensWithStop onePlusTokens ⟨1, 4, 3⟩ = .ok plain ∧
      (Matcher.mk sums .ebnf marked).parse "list" = .ok answer ∧
      (Matcher.mk sums .ebnf plain).parse "list" = .ok answer ∧
      ((Matcher.mk sums .ebnf marked).matchAll "list").All (·.Inside 2) ∧
      Matcher.TellsOf onePlusTokens ⟨1, 4, 3⟩ answer :=
  have hrec : sums.isLeftRecursive = false := by decide +kernel
  have hts : ∀ t ∈ onePlusTokens, t.isEndMark = false := by
    simp [onePlusTokens, Token.unplaced, Token.placed]
  have hfits : ∀ t ∈ onePlusTokens, ∃ p, t.endPosition = .ok p := by
    simp only [onePlusTokens, List.forall_mem_cons]
    exact ⟨⟨⟨1, 2, 1⟩, by decide⟩, ⟨⟨1, 2, 1⟩, by decide⟩,
      fun _ h => absurd h List.not_mem_nil⟩
  Matcher.parse_of_endMark hrec .ebnf hts hfits (e := .endMark .semi ⟨1, 4, 3⟩)
    rfl [.unplaced .num "2"] "list"

end Script

end Descent
