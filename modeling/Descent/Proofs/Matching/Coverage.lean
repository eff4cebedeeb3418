import Descent.Proofs.Grammar.Rules
import Descent.Proofs.Grammar.Operators
import Descent.Proofs.Matching.Frame
import Descent.Proofs.Matching.Furthest
import Descent.Proofs.Matching.Parse

/-!
# Where matching has been, something has failed

A failed run is reported at its furthest failure. That is where matching got
furthest if every way to fail leaves a failure in the trace, at the index where
the attempt ends or further on, so that no index the run has been at lies beyond
all failures.

One way to fail leaves none. A **barren** non-terminal has neither rules nor
operators before operands, so there is nothing to try, and the attempt fails
where the non-terminal was entered without a word. Entering one is therefore
counted as well: an index is `Covered` if something has failed there or further
on, or a barren non-terminal was entered there or further on. Then every index
that a failed run has been at is covered (`Attempt.covered`).
-/

namespace Descent

variable {K α : Type}

/-- **The index to which an event takes the run.** -/
def Event.place : Event K → Nat
  | .advance i => i + 1
  | .restore _ target => target
  | .expect i _ | .reach i | .enter i _ => i

/-- A name is barren if its non-terminal is. -/
def Grammar.Barren (g : Grammar K α) (x : String) : Prop :=
  ∃ n, g.get? x = some n ∧ n.IsBarren

/-- Where every non-terminal has a rule, none is barren. -/
theorem Grammar.not_barren {g : Grammar K α}
    (h : ∀ n ∈ g.nonTerminals, n.rules ≠ []) (x : String) : ¬ g.Barren x := by
  rintro ⟨n, hx, hn, _⟩
  exact h n (List.mem_of_find?_eq_some hx) hn

namespace Matcher

variable {m : Matcher K α} {r r' : Run K} {i j : Nat}

/-- **An index is covered** by a run if there or further on something has failed
or a barren non-terminal was entered. -/
def Covered (m : Matcher K α) (r : Run K) (j : Nat) : Prop :=
  ∃ e ∈ r.trace, ∃ i, j ≤ i ∧
    (e.failure? = some i ∨ ∃ x, e = .enter i x ∧ m.grammar.Barren x)

/-- **A run is open** if every index it has been at is covered, or is not
further on than where the run stands. -/
def Open (m : Matcher K α) (r : Run K) : Prop :=
  ∀ e ∈ r.trace, e.place ≤ r.index ∨ m.Covered r e.place

theorem Covered.of_le (h : m.Covered r j) (hij : i ≤ j) : m.Covered r i := by
  obtain ⟨e, he, k, hk, h⟩ := h
  exact ⟨e, he, k, Nat.le_trans hij hk, h⟩

/-- What has happened stays in the trace. -/
theorem Covered.extends (h : m.Covered r j) (hext : m.Extends r r') :
    m.Covered r' j := by
  obtain ⟨e, he, h⟩ := h
  exact ⟨e, hext.trace.subset he, h⟩

theorem Covered.restore (h : m.Covered r j) : m.Covered (r.restore i) j := by
  obtain ⟨e, he, h⟩ := h
  exact ⟨e, List.mem_cons_of_mem _ he, h⟩

/-- A failure covers the index where it happens. -/
theorem covered_of_failure {e : Event K} (he : e ∈ r.trace)
    (hi : e.failure? = some i) : m.Covered r i :=
  ⟨e, he, i, Nat.le_refl i, .inl hi⟩

/-- Entering a barren non-terminal covers the index where it is entered. -/
theorem covered_enter {x : String} (hx : m.grammar.Barren x) :
    m.Covered (r.enter x) r.index :=
  ⟨_, List.mem_cons_self, r.index, Nat.le_refl _, .inr ⟨x, rfl, hx⟩⟩

theorem covered_expectAll {kinds : List K} (h : kinds ≠ []) :
    m.Covered (r.expectAll kinds) r.index := by
  obtain ⟨k, hk⟩ := List.exists_mem_of_ne_nil kinds h
  exact covered_of_failure (Run.mem_trace_expectAll.mpr (.inr ⟨k, hk, rfl⟩)) rfl

namespace Open

theorem start (m : Matcher K α) : m.Open .start :=
  fun _ h => absurd h List.not_mem_nil

/-- A run that goes on without going back stays open, if what is new stands
where the run has come to. -/
theorem of_extends (h : m.Open r) (hext : m.Extends r r')
    (hnew : ∀ e ∈ r'.trace, e ∈ r.trace ∨ e.place ≤ r'.index) : m.Open r' := by
  intro e he
  rcases hnew e he with hold | hle
  · rcases h e hold with hle | hcov
    · exact .inl (Nat.le_trans hle hext.le)
    · exact .inr (hcov.extends hext)
  · exact .inl hle

theorem log (h : m.Open r) {e : Event K} (he : e.place ≤ r.index) :
    m.Open (r.log e) := by
  refine h.of_extends (.log m r e) fun e' he' => ?_
  rcases List.mem_cons.mp he' with rfl | he'
  · exact .inr he
  · exact .inl he'

theorem expectAll (h : m.Open r) (kinds : List K) :
    m.Open (r.expectAll kinds) := by
  refine h.of_extends (.expectAll m r kinds) fun e he => ?_
  rcases Run.mem_trace_expectAll.mp he with he | ⟨k, _, rfl⟩
  · exact .inl he
  · exact .inr (Nat.le_of_eq (Run.index_expectAll r kinds).symm)

theorem advance (h : m.Open r) {t : Token K}
    (ht : m.tokens.get? r.index = some t) : m.Open r.advance := by
  refine h.of_extends (.advance ht) fun e he => ?_
  rcases List.mem_cons.mp he with rfl | he
  · exact .inr (Nat.le_refl _)
  · exact .inl he

/-- **Going back after a failure** leaves the run open, and covered where it
stands then. -/
theorem back (h : m.Open r') (hcov : m.Covered r' r'.index)
    (hext : m.Extends r r') :
    m.Open (r'.restore r.index) ∧ m.Covered (r'.restore r.index) r.index := by
  refine ⟨fun e he => ?_, (hcov.of_le hext.le).restore⟩
  rcases List.mem_cons.mp he with rfl | he
  · exact .inl (Nat.le_refl _)
  · rcases h e he with hle | h
    · exact .inr (hcov.of_le hle).restore
    · exact .inr h.restore

/-- Going back where nothing was taken leaves the run open. -/
theorem stay (h : m.Open r') (hle : r'.index ≤ r.index) :
    m.Open (r'.restore r.index) := by
  intro e he
  rcases List.mem_cons.mp he with rfl | he
  · exact .inl (Nat.le_refl _)
  · rcases h e he with hle' | h
    · exact .inl (Nat.le_trans hle' hle)
    · exact .inr h.restore

end Open

end Matcher

/-! ## What an attempt leaves covered -/

/-- **A goal can be begun from a run**: its choices have branches, and if there
is nothing to try for it, the index where the run stands is covered. -/
def Goal.Ready (m : Matcher K α) (r : Run K) : Goal K α → Prop
  | name _ => True
  | rules _ rs => (∀ rule ∈ rs, Clause.AllHaveBranches rule.clauses) ∧
      (rs = [] → m.Covered r r.index)
  | sequence clauses => Clause.AllHaveBranches clauses
  | clause c => c.HasBranches
  | choice branches => Clause.AllHaveBranches branches ∧
      (branches = [] → m.Covered r r.index)
  | iterations body => body.HasBranches
  | expression head _ | operand head => head.HasBranches ∧
      (head.IsBarren → m.Covered r r.index)
  | climb head .. => head.HasBranches ∧ ¬ head.IsBarren

namespace Matcher

variable [DecidableEq K] [TokenKind K] {m : Matcher K α} {r : Run K}

/-- A barren non-terminal has no operands. -/
theorem Attempt.not_isBarren {head : NonTerminal K α} {r' : Run K}
    {ts : List (Tree K α)} (h : m.Attempt (.operand head) r (.matched ts r')) :
    ¬ head.IsBarren := by
  cases h with
  | noPrefix _ h =>
    rintro ⟨hrules, _⟩
    rw [hrules] at h
    cases h
  | prefixed ht _ | prefixNone ht _ _ =>
    exact NonTerminal.not_isBarren_of_leadingOperator?
      (leading?_eq_some_iff.mp ht).2

/-- **An attempt leaves its run open, and covered where it fails.** -/
theorem Attempt.covered {goal : Goal K α} {o : Outcome K (List (Tree K α))}
    (h : m.Attempt goal r o) (hg : m.grammar.HasBranches) (hr : m.Open r)
    (hgoal : goal.Ready m r) :
    o.Ensures (fun r' => m.Open r' ∧ m.Covered r' r'.index)
      fun _ r' => m.Open r' := by
  induction h with
  | undeclared =>
    exact ⟨(hr.log (Nat.le_refl _)).log (Nat.le_refl _),
      covered_of_failure List.mem_cons_self rfl⟩
  | head hx _ _ ih =>
    exact ih (hr.log (Nat.le_refl _))
      ⟨hg.of_get? hx, fun hb => covered_enter ⟨_, hx, hb⟩⟩
  | @plain x n r _ hx hhead _ ih =>
    refine ih (hr.log (Nat.le_refl _)) ⟨hg.of_get? hx, fun hrules => ?_⟩
    -- a non-terminal with neither rules nor operators is barren
    refine covered_enter ⟨_, hx, hrules, ?_⟩
    have hops : n.operators = [] := by simpa [NonTerminal.isHead] using hhead
    simp [NonTerminal.leadingKinds, NonTerminal.operatorsWith, hops]
  | noRule => exact ⟨hr, hgoal.2 rfl⟩
  | rule _ ih => exact ih hr (hgoal.1 _ List.mem_cons_self)
  | nextRule h _ ih ih' =>
    obtain ⟨hopen, hcov⟩ := ih hr (hgoal.1 _ List.mem_cons_self)
    obtain ⟨hopen', hcov'⟩ := hopen.back hcov h.extends
    exact ih' hopen'
      ⟨fun rule hr => hgoal.1 rule (List.mem_cons_of_mem _ hr), fun _ => hcov'⟩
  | done => exact hr
  | stuck _ ih => exact ih hr hgoal.1
  | andThen _ _ ih ih' =>
    exact Outcome.ensures_map.mpr (ih' (ih hr hgoal.1) hgoal.2)
  | refused | noToken =>
    exact ⟨hr.log (Nat.le_refl _), covered_of_failure List.mem_cons_self rfl⟩
  | token ht => exact hr.advance ht
  | reference _ ih => exact Outcome.ensures_map.mpr (ih hr trivial)
  | group _ _ ih => exact ih hr hgoal
  | choice _ _ ih => exact ih hr ⟨hgoal.2, fun h => absurd h hgoal.1⟩
  | optional _ _ ih => exact ih hr hgoal
  | optionalNone _ h ih | stop h ih =>
    obtain ⟨hopen, hcov⟩ := ih hr hgoal
    exact (hopen.back hcov h.extends).1
  | star _ _ ih => exact Outcome.ensures_map.mpr (ih hr hgoal)
  | plusNone _ _ ih => exact ih hr hgoal
  | plus _ _ _ ih ih' =>
    exact Outcome.ensures_map.mpr (ih' (ih hr hgoal) hgoal)
  | noBranch => exact ⟨hr, hgoal.2 rfl⟩
  | branch _ ih => exact ih hr hgoal.1.1
  | nextBranch h _ ih ih' =>
    obtain ⟨hopen, hcov⟩ := ih hr hgoal.1.1
    obtain ⟨hopen', hcov'⟩ := hopen.back hcov h.extends
    exact ih' hopen' ⟨hgoal.1.2, fun _ => hcov'⟩
  | still _ hlt ih => exact (ih hr hgoal).stay (Nat.le_of_not_lt hlt)
  | again _ _ _ ih ih' =>
    exact Outcome.ensures_map.mpr (ih' (ih hr hgoal) hgoal)
  | noOperand _ ih => exact ih hr hgoal
  | fromOperand h _ ih ih' => exact ih' (ih hr hgoal) ⟨hgoal.1, h.not_isBarren⟩
  | noOperator => exact hr.expectAll _
  | postfixed ht _ _ ih =>
    exact ih (hr.advance (trailing?_eq_some_iff.mp ht).1) hgoal
  | noRight ht _ h ih =>
    obtain ⟨hopen, hcov⟩ := ih (hr.advance (trailing?_eq_some_iff.mp ht).1)
      ⟨hgoal.1, fun hb => absurd hb hgoal.2⟩
    exact (hopen.back hcov ((Extends.advance_trailing ht).trans h.extends)).1
  | infixed ht _ _ _ ih ih' =>
    exact ih' (ih (hr.advance (trailing?_eq_some_iff.mp ht).1)
      ⟨hgoal.1, fun hb => absurd hb hgoal.2⟩) hgoal
  | @noPrefix n r _ _ _ ih =>
    -- without rules there is an operator to want here, or the head is barren
    refine ih (hr.expectAll _) ⟨hgoal.1, fun hrules => ?_⟩
    rw [Run.index_expectAll]
    by_cases hkinds : n.leadingKinds = []
    · exact (hgoal.2 ⟨hrules, hkinds⟩).extends (.expectAll m r _)
    · exact covered_expectAll hkinds
  | prefixed ht _ ih =>
    have hb := NonTerminal.not_isBarren_of_leadingOperator?
      (leading?_eq_some_iff.mp ht).2
    exact ih (hr.advance (leading?_eq_some_iff.mp ht).1)
      ⟨hgoal.1, fun h => absurd h hb⟩
  | prefixNone ht h _ ih ih' =>
    have hb := NonTerminal.not_isBarren_of_leadingOperator?
      (leading?_eq_some_iff.mp ht).2
    obtain ⟨hopen, hcov⟩ := ih (hr.advance (leading?_eq_some_iff.mp ht).1)
      ⟨hgoal.1, fun h => absurd h hb⟩
    obtain ⟨hopen', hcov'⟩ :=
      hopen.back hcov ((Extends.advance_leading ht).trans h.extends)
    refine ih' (hopen'.expectAll _) ⟨hgoal.1, fun _ => ?_⟩
    rw [Run.index_expectAll]
    exact hcov'.extends (.expectAll m _ _)

/-! ## What a failed parse leaves covered -/

variable {start : String}

/-- **A failed parse leaves its run covered**: where it stands, and wherever it
has been. -/
theorem covered_of_matchAll_failed (hg : m.grammar.HasBranches)
    (h : m.matchAll start = .failed r) :
    m.Covered r r.index ∧ ∀ e ∈ r.trace, m.Covered r e.place := by
  have hopen : m.Open r ∧ m.Covered r r.index := by
    rcases attempt_of_matchAll_failed h with hatt | ⟨_, r', hatt, _, rfl⟩
    · exact hatt.covered hg (.start m) trivial
    · have hr : m.Open r' := hatt.covered hg (.start m) trivial
      exact ⟨hr.log (Nat.le_refl _),
        covered_of_failure List.mem_cons_self rfl⟩
  refine ⟨hopen.2, fun e he => ?_⟩
  rcases hopen.1 e he with hle | hcov
  · exact hopen.2.of_le hle
  · exact hcov

omit [TokenKind K] in
/-- What is covered is not further on than the furthest failure, unless a barren
non-terminal was entered there. -/
theorem Covered.le_errorIndex {j : Nat} (h : m.Covered r j)
    (hb : ∀ i x, .enter i x ∈ r.trace → m.grammar.Barren x →
      i ≤ r.errorIndex) : j ≤ r.errorIndex := by
  obtain ⟨e, he, i, hji, hi | ⟨x, rfl, hx⟩⟩ := h
  · exact Nat.le_trans hji (Run.le_errorIndex he hi)
  · exact Nat.le_trans hji (hb i x he hx)

/-- **When a failure is reported where matching got furthest**: exactly when no
barren non-terminal was entered beyond it. -/
theorem place_le_errorIndex_iff (hg : m.grammar.HasBranches)
    (h : m.matchAll start = .failed r) :
    (∀ e ∈ r.trace, e.place ≤ r.errorIndex) ↔
      ∀ i x, .enter i x ∈ r.trace → m.grammar.Barren x → i ≤ r.errorIndex :=
  ⟨fun hplace i x hmem _ => hplace (.enter i x) hmem, fun hb e he =>
    ((covered_of_matchAll_failed hg h).2 e he).le_errorIndex hb⟩

/-- Without barren non-terminals, a token that was ever taken stands before the
furthest failure. -/
theorem lt_errorIndex_of_advance (hg : m.grammar.HasBranches)
    (hb : ∀ x, ¬ m.grammar.Barren x) (h : m.matchAll start = .failed r)
    {j : Nat} (hj : .advance j ∈ r.trace) : j < r.errorIndex :=
  (place_le_errorIndex_iff hg h).mpr (fun _ x _ hx => absurd hx (hb x)) _ hj

/-- Without barren non-terminals, what is expected is what was wanted at the
furthest failure. -/
theorem mem_expected_iff (hg : m.grammar.HasBranches)
    (hb : ∀ x, ¬ m.grammar.Barren x) (h : m.matchAll start = .failed r)
    {k : K} :
    k ∈ r.furthest.expected ↔ .expect r.errorIndex k ∈ r.trace := by
  obtain ⟨e, he, i, _, hi | ⟨x, _, hx⟩⟩ := (covered_of_matchAll_failed hg h).1
  · exact Run.mem_expected_iff he hi
  · exact absurd hx (hb x)

end Matcher

end Descent
