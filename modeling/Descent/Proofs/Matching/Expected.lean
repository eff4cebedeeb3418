import Descent.Proofs.Matching.Coverage
import Descent.Proofs.Matching.Parting
import Descent.Proofs.Matching.Retry
import Descent.Proofs.Matching.Termination

/-!
# The expected kinds are exactly those that help

A failed parse reports the index where it got furthest and the kinds expected
there. For a grammar without left recursion whose non-terminals have rules and
whose choices have branches, the report is exact (`Matcher.expected_exact`).
Whatever follows it, a token of an expected kind in that place makes the parse
succeed or fail further on, and a token of any other kind leaves the failure as
it is.

Three facts carry this. The run of the other token list is the same run until
the token at the index parts the two (`Agree.parted`). A kind that is wanted
where it stands is taken (`Attempt.settled`). And a token that was taken stands
before the furthest failure (`lt_errorIndex_of_advance`).
-/

namespace Descent.Matcher

variable {K α : Type} [DecidableEq K] [TokenKind K] {m m' : Matcher K α}
  {start : String} {i : Nat} {k : K} {r : Run K}

/-- **A parse fails at an index**, with some kinds expected there, in order. -/
def FailsAt (m : Matcher K α) (start : String) (i : Nat)
    (expected : List K) : Prop :=
  m.grammar.contains start = true ∧
    ∃ r, m.matchAll start = .failed r ∧ r.errorIndex = i ∧
      r.furthest.expected = expected

/-- **The report of a failure** is the token at its index, the place of the
index and the kinds expected there. -/
theorem parse_eq_unexpected_iff_failsAt {e : UnexpectedToken K} :
    m.parse start = .ok (.error (.unexpected e)) ↔
      ∃ i expected, m.FailsAt start i expected ∧
        e = ⟨m.tokens.get? i, (m.tokens.location i).1, (m.tokens.location i).2,
          expected⟩ := by
  rw [parse_eq_unexpected_iff]
  constructor
  · rintro ⟨hstart, r, hr, rfl⟩
    exact ⟨_, _, ⟨hstart, r, hr, rfl, rfl⟩, rfl⟩
  · rintro ⟨_, _, ⟨hstart, r, hr, rfl, rfl⟩, rfl⟩
    exact ⟨hstart, r, hr, rfl⟩

/-! ## The run of a parse -/

/-- What is matched against all tokens, from the attempt at the start. -/
theorem map_matchAll (hrec : m.grammar.isLeftRecursive = false)
    {o : Outcome K (List (Tree K α))} (h : m.Attempt (.name start) .start o) :
    (m.matchAll start).map ([·]) = o.bind fun ts r =>
      if m.tokens.length ≤ r.index then .matched ts r else .failed r.reach := by
  obtain ⟨o', _, h', hn⟩ := exists_outcome hrec (.name start) .start
  obtain rfl := h.unique h'
  rw [← hn m.budget (Nat.le_of_eq (m.budget_eq_stepBound start).symm), outcome,
    matchAll]
  cases m.nonTerminal m.budget start .start with
  | exhausted => rfl
  | failed r => rfl
  | matched tree r =>
    rw [Outcome.bind_matched, Outcome.map_matched, Outcome.bind_matched]
    split <;> rfl

/-- Two attempts of matchers that agree so far compare. -/
theorem Agree.parted_attempts (h : m.Agree m' i k)
    (hrec : m.grammar.isLeftRecursive = false) {goal : Goal K α}
    {o o' : Outcome K (List (Tree K α))} (hr : r.Tracked)
    (hatt : m.Attempt goal r o) (hatt' : m'.Attempt goal r o') :
    Outcome.Parted i k o o' := by
  have hrec' : m'.grammar.isLeftRecursive = false := by rw [h.grammar, hrec]
  obtain ⟨o₁, _, h₁, hn₁⟩ := exists_outcome hrec goal r
  obtain ⟨o₂, _, h₂, hn₂⟩ := exists_outcome hrec' goal r
  rw [hatt.unique h₁, hatt'.unique h₂, ← hn₁ _ (Nat.le_max_left _ _),
    ← hn₂ _ (Nat.le_max_right _ _)]
  exact h.parted _ (.refl goal) hr

/-- A failed parse leaves its run settled. -/
theorem settled_of_matchAll (hk : (m.tokens.get? i).map (·.kind) = some k)
    (h : m.matchAll start = .failed r) : r.Settled i k := by
  rcases attempt_of_matchAll_failed h with hatt | ⟨_, r', hatt, _, rfl⟩
  · exact hatt.settled hk Run.settled_start
  · exact Run.Settled.reach (hatt.settled hk Run.settled_start)

/-- What holds of the run of the attempt holds of the run of the parse. -/
theorem all_matchAll (hrec : m.grammar.isLeftRecursive = false)
    {o : Outcome K (List (Tree K α))} (h : m.Attempt (.name start) .start o)
    {e : Event K} (ho : o.All fun r => e ∈ r.trace) :
    (m.matchAll start).All fun r => e ∈ r.trace := by
  have hmap := map_matchAll hrec h
  rw [← Outcome.all_map (f := ([·])), hmap]
  cases o with
  | exhausted => trivial
  | failed r => exact ho
  | matched ts r =>
    rw [Outcome.bind_matched]
    split
    · exact ho
    · exact List.mem_cons_of_mem _ ho

omit [DecidableEq K] [TokenKind K] in
/-- The second of two matchers that agree so far has a token at the index. -/
theorem Agree.lt_length (h : m.Agree m' i k) : i < m'.tokens.length := by
  obtain ⟨t, ht, _⟩ := Option.map_eq_some_iff.mp h.there
  exact TokenList.lt_length_of_get? ht

/-- **The run of another token list** is the run of a failed parse that has not
taken the token at the index, unless a kind was wanted there that the other
takes. -/
theorem Agree.matchAll_cases (h : m.Agree m' i k)
    (hrec : m.grammar.isLeftRecursive = false)
    (hr : m.matchAll start = .failed r) (hi : .advance i ∉ r.trace) :
    m'.matchAll start = .failed r ∨
      .expect i k ∈ r.trace ∧
        (m'.matchAll start).All fun r' => .advance i ∈ r'.trace := by
  have hrec' : m'.grammar.isLeftRecursive = false := by rw [h.grammar, hrec]
  obtain ⟨o', ho', hatt', _⟩ := exists_outcome hrec' (.name start) .start
  have hmap := map_matchAll hrec' hatt'
  have hstart : (Run.start : Run K).Tracked := fun j hj => absurd hj (by simp)
  rcases attempt_of_matchAll_failed hr with hatt | ⟨tree, r₀, hatt, _, rfl⟩
  · cases h.parted_attempts hrec hstart hatt hatt' with
    | exhausted => exact absurd rfl ho'
    | failed => exact .inl (by simpa using hmap)
    | passed hpass => exact absurd hpass hi
    | missed hmiss hpass => exact .inr ⟨hmiss, all_matchAll hrec' hatt' hpass⟩
  · have hi₀ : .advance i ∉ r₀.trace := fun h => hi (List.mem_cons_of_mem _ h)
    cases h.parted_attempts hrec hstart hatt hatt' with
    | exhausted => exact absurd rfl ho'
    | matched =>
      -- the tokens left over were not looked at
      have hle : r₀.index ≤ i := Nat.le_of_not_lt fun hlt =>
        hi₀ (hstart.extends hatt.extends i hlt)
      have hlt := Nat.lt_of_le_of_lt hle h.lt_length
      rw [Outcome.bind_matched, if_neg (Nat.not_le_of_lt hlt)] at hmap
      exact .inl (by simpa using hmap)
    | passed hpass => exact absurd hpass hi₀
    | missed hmiss hpass =>
      exact .inr ⟨List.mem_cons_of_mem _ hmiss, all_matchAll hrec' hatt' hpass⟩

/-! ## What the report says of other token lists -/

/-- **The expected kinds are exactly those that help.** In a grammar without
left recursion whose non-terminals have rules and whose choices have branches,
let the parse of a token list fail at an index. The kind of the token there is
not among the expected ones. And any other list whose kinds agree before the
index is parsed, or fails further on, if it has a token of an expected kind
there; it fails in the same way if it has one of another kind. -/
theorem expected_exact {g : Grammar K α} (hrec : g.isLeftRecursive = false)
    (hrules : ∀ n ∈ g.nonTerminals, n.rules ≠ []) (hchoices : g.HasBranches)
    {style : Style} {start : String} {tokens : TokenList K} {i : Nat}
    {expected : List K}
    (hfail : (Matcher.mk g style tokens).FailsAt start i expected) :
    (∀ t, tokens.get? i = some t → t.kind ∉ expected) ∧
      ∀ (tokens' : TokenList K) (k : K),
        tokens'.kinds.take i = tokens.kinds.take i → tokens'.kinds[i]? = some k →
        (k ∈ expected →
          (∃ tree, (Matcher.mk g style tokens').parse start = .ok (.ok tree)) ∨
            ∃ j expected', i < j ∧
              (Matcher.mk g style tokens').FailsAt start j expected') ∧
        (k ∉ expected → (Matcher.mk g style tokens').FailsAt start i expected) := by
  obtain ⟨hstart, r, hr, rfl, rfl⟩ := hfail
  have hb := Grammar.not_barren hrules
  -- what was taken stands before the furthest failure
  have hi : .advance r.errorIndex ∉ r.trace := fun h =>
    Nat.lt_irrefl _ (lt_errorIndex_of_advance hchoices hb hr h)
  refine ⟨fun t ht hmem => ?_, fun tokens' k htake hk => ?_⟩
  · have hmem' := (mem_expected_iff hchoices hb hr).mp hmem
    have hkind : (tokens.get? r.errorIndex).map (·.kind) = some t.kind := by
      rw [ht, Option.map_some]
    exact hi (settled_of_matchAll (m := ⟨g, style, tokens⟩) hkind hr hmem')
  · have hagree : (Matcher.mk g style tokens).Agree ⟨g, style, tokens'⟩
        r.errorIndex k := by
      refine ⟨rfl, rfl, fun j hj => ?_, ?_⟩
      · rw [TokenList.map_kind_get?, TokenList.map_kind_get?,
          ← List.getElem?_take_of_lt hj, htake, List.getElem?_take_of_lt hj]
      · rw [TokenList.map_kind_get?, hk]
    have hcases := hagree.matchAll_cases hrec hr hi
    refine ⟨fun hmem => ?_, fun hmem => ?_⟩
    · have hmem' := (mem_expected_iff hchoices hb hr).mp hmem
      -- a run that did not take the expected token would be the first run, in
      -- which the kind was wanted and not taken
      have hpass : ((Matcher.mk g style tokens').matchAll start).All
          fun r' => .advance r.errorIndex ∈ r'.trace := by
        refine (hcases.resolve_left fun hr' => hi ?_).2
        exact settled_of_matchAll hagree.there hr' hmem'
      cases hm : (Matcher.mk g style tokens').matchAll start with
      | exhausted =>
        exact absurd hm
          (matchAll_ne_exhausted (m := ⟨g, style, tokens'⟩) hrec start)
      | failed r' =>
        rw [hm] at hpass
        have hlt := lt_errorIndex_of_advance (m := ⟨g, style, tokens'⟩)
          hchoices hb hm hpass
        exact .inr ⟨_, _, hlt, hstart, r', hm, rfl, rfl⟩
      | matched tree r' => exact .inl ⟨tree, parse_eq_tree_iff.mpr ⟨hstart, r', hm⟩⟩
    · have hmem' := mt (mem_expected_iff hchoices hb hr).mpr hmem
      exact ⟨hstart, r, hcases.resolve_right fun h => hmem' h.1, rfl, rfl⟩

end Descent.Matcher

namespace Descent.Script

/-- The tokens of `1 +`. -/
def onePlus : TokenList ScriptKind :=
  .withStop [.unplaced .num "1", .unplaced .plus "+"] .start

/-- The tokens of `1 + )`. -/
def onePlusClose : TokenList ScriptKind :=
  .withStop [.unplaced .num "1", .unplaced .plus "+", .unplaced .rparen ")"]
    .start

theorem onePlus_expected_exact :
    (Matcher.mk sums .ebnf onePlus).FailsAt "list" 2 [.minus, .num, .lparen] ∧
      (Matcher.mk sums .ebnf onePlusClose).FailsAt "list" 2
        [.minus, .num, .lparen] :=
  have h : (Matcher.mk sums .ebnf onePlus).FailsAt "list" 2
      [.minus, .num, .lparen] := ⟨rfl, _, rfl, rfl, rfl⟩
  have hrules : ∀ n ∈ sums.nonTerminals, n.rules ≠ [] := by simp [sums]
  have hchoices : sums.HasBranches := by
    simp [sums, Grammar.HasBranches, NonTerminal.HasBranches, Rule.ofClauses,
      Clause.AllHaveBranches, Clause.HasBranches]
  ⟨h, ((Matcher.expected_exact (by decide +kernel) hrules hchoices h).2
    onePlusClose .rparen rfl rfl).2 (by decide)⟩

end Descent.Script
