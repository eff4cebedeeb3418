import Descent.Proofs.Matching.Frame

/-!
# Two token lists with a common beginning

Two matchers of one grammar and style read token lists whose kinds agree before
an index `i`, and the second list has a token of kind `k` there. Whatever both
are asked to match from one run, they do the same as long as neither has looked
at index `i`. When they come to it they do the same again, unless the token
there tells them apart, and there are only two ways in which it can
(`Agree.parted`): the first matcher takes its token there, or the first matcher
wants `k` there while the second takes it.

The proof follows the functions, with one step budget for both. Where a function
goes on after a part, it goes on from the same run on both sides or the two have
parted already, and then the events that tell them apart stay in the traces.
-/

namespace Descent

variable {K α β γ : Type}

namespace Outcome

/-- **How the outcomes of two matchers compare**, of which the second may be left
without an answer. -/
inductive Parted (i : Nat) (k : K) : Outcome K β → Outcome K β → Prop
  /-- The second has no answer. -/
  | exhausted {o : Outcome K β} : Parted i k o .exhausted
  /-- Both fail, after the same run. -/
  | failed {r : Run K} : Parted i k (.failed r) (.failed r)
  /-- Both match, after the same run. -/
  | matched {x x' : β} {r : Run K} : Parted i k (.matched x r) (.matched x' r)
  /-- The first has taken its token at the index. -/
  | passed {o o' : Outcome K β} :
      (o.All fun r => .advance i ∈ r.trace) → Parted i k o o'
  /-- The first has wanted the kind where the second has taken it. -/
  | missed {o o' : Outcome K β} :
      (o.All fun r => .expect i k ∈ r.trace) →
      (o'.All fun r => .advance i ∈ r.trace) → Parted i k o o'

/-- Goes on after a failure or a match. -/
def elim (F : Run K → Outcome K γ) (M : β → Run K → Outcome K γ) :
    Outcome K β → Outcome K γ
  | exhausted => exhausted
  | failed r => F r
  | matched x r => M x r

theorem bind_eq_elim (o : Outcome K β) (f : β → Run K → Outcome K γ) :
    o.bind f = o.elim failed f := by
  cases o <;> rfl

theorem orElse_eq_elim (o : Outcome K β) (f : Run K → Outcome K β) :
    o.orElse f = o.elim f matched := by
  cases o <;> rfl

/-- **What goes on after a part keeps the trace.** -/
structure Keeps (F : Run K → Outcome K γ) (M : β → Run K → Outcome K γ) :
    Prop where
  /-- After a failure. -/
  failed : ∀ r, (F r).All fun r' => r.trace ⊆ r'.trace
  /-- After a match. -/
  matched : ∀ x r, (M x r).All fun r' => r.trace ⊆ r'.trace

variable {i : Nat} {k : K} {o o' : Outcome K β} {F F' : Run K → Outcome K γ}
  {M M' : β → Run K → Outcome K γ}

theorem Keeps.mem_trace (h : Keeps F M) {e : Event K}
    (ho : o.All fun r => e ∈ r.trace) :
    (o.elim F M).All fun r => e ∈ r.trace := by
  cases o with
  | exhausted => trivial
  | failed r => exact (h.failed r).imp fun _ hsub => hsub ho
  | matched x r => exact (h.matched x r).imp fun _ hsub => hsub ho

namespace Parted

theorem refl (o : Outcome K β) : Parted i k o o := by
  cases o with
  | exhausted => exact .exhausted
  | failed r => exact .failed
  | matched x r => exact .matched

theorem map (h : Parted i k o o') (f f' : β → γ) :
    Parted i k (o.map f) (o'.map f') := by
  cases h with
  | exhausted => exact .exhausted
  | failed => exact .failed
  | matched => exact .matched
  | passed h => exact .passed (all_map.mpr h)
  | missed h h' => exact .missed (all_map.mpr h) (all_map.mpr h')

theorem of_map {f f' : β → γ} (h : Parted i k (o.map f) (o'.map f')) :
    Parted i k o o' := by
  cases o' with
  | exhausted => exact .exhausted
  | failed r' =>
    cases o with
    | exhausted => exact .passed trivial
    | failed r =>
      cases h with
      | failed => exact .failed
      | passed h => exact .passed h
      | missed h h' => exact .missed h h'
    | matched x r =>
      cases h with
      | passed h => exact .passed h
      | missed h h' => exact .missed h h'
  | matched x' r' =>
    cases o with
    | exhausted => exact .passed trivial
    | failed r =>
      cases h with
      | passed h => exact .passed h
      | missed h h' => exact .missed h h'
    | matched x r =>
      cases h with
      | matched => exact .matched
      | passed h => exact .passed h
      | missed h h' => exact .missed h h'

/-- **Going on after parts that compare** compares, if going on from one run
does. -/
theorem elim (h : Parted i k o o') {P : Run K → Prop} (ho : o.All P)
    (hF : ∀ r, P r → Parted i k (F r) (F' r))
    (hM : ∀ x x' r, P r → Parted i k (M x r) (M' x' r))
    (hK : Keeps F M) (hK' : Keeps F' M') :
    Parted i k (o.elim F M) (o'.elim F' M') := by
  cases h with
  | exhausted => exact .exhausted
  | failed => exact hF _ ho
  | matched => exact hM _ _ _ ho
  | passed h => exact .passed (hK.mem_trace h)
  | missed h h' => exact .missed (hK.mem_trace h) (hK'.mem_trace h')

theorem bind (h : Parted i k o o') {P : Run K → Prop} (ho : o.All P)
    (hM : ∀ x x' r, P r → Parted i k (M x r) (M' x' r))
    (hK : ∀ x r, (M x r).All fun r' => r.trace ⊆ r'.trace)
    (hK' : ∀ x r, (M' x r).All fun r' => r.trace ⊆ r'.trace) :
    Parted i k (o.bind M) (o'.bind M') := by
  rw [bind_eq_elim, bind_eq_elim]
  exact h.elim ho (fun _ _ => .failed) hM
    ⟨fun r => List.Subset.refl r.trace, hK⟩
    ⟨fun r => List.Subset.refl r.trace, hK'⟩

theorem orElse {F F' : Run K → Outcome K β} (h : Parted i k o o')
    {P : Run K → Prop} (ho : o.All P)
    (hF : ∀ r, P r → Parted i k (F r) (F' r))
    (hK : ∀ r, (F r).All fun r' => r.trace ⊆ r'.trace)
    (hK' : ∀ r, (F' r).All fun r' => r.trace ⊆ r'.trace) :
    Parted i k (o.orElse F) (o'.orElse F') := by
  rw [orElse_eq_elim, orElse_eq_elim]
  exact h.elim ho hF (fun _ _ _ _ => .matched)
    ⟨hK, fun _ r => List.Subset.refl r.trace⟩
    ⟨hK', fun _ r => List.Subset.refl r.trace⟩

end Parted

end Outcome

namespace Matcher

variable [DecidableEq K]

/-! ## Looking at the next token -/

/-- Looks at the next token, for what its kind stands for. -/
def look (m : Matcher K α) (f : K → Option β) (r : Run K) :
    Option (Token K × β) :=
  (m.tokens.get? r.index).bind fun t => (f t.kind).map (t, ·)

theorem leading?_eq_look (m : Matcher K α) (head : NonTerminal K α)
    (r : Run K) : m.leading? head r = m.look head.leadingOperator? r := by
  rw [leading?, look]
  cases m.tokens.get? r.index with
  | none => rfl
  | some t => cases h : head.leadingOperator? t.kind <;> simp [h]

theorem trailing?_eq_look (m : Matcher K α) (head : NonTerminal K α)
    (least : Nat) (r : Run K) :
    m.trailing? head least r = m.look (fun k =>
      (head.trailingOperator? k).filter (least ≤ ·.precedence)) r := by
  rw [trailing?, look]
  cases m.tokens.get? r.index with
  | none => rfl
  | some t =>
    cases h : head.trailingOperator? t.kind with
    | none => simp [h]
    | some o => by_cases hle : least ≤ o.precedence <;> simp [h, hle, Option.filter]

theorem token_eq_look (m : Matcher K α) (kind : K) (r : Run K) :
    m.token kind r = match m.look (fun k => if k = kind then some () else none) r with
      | some (t, _) => .matched t r.advance
      | none => .failed (r.expect kind) := by
  rw [token, look]
  cases m.tokens.get? r.index with
  | none => rfl
  | some t => by_cases h : t.kind = kind <;> simp [h]

/-- **Two matchers agree before an index**, where the second finds a kind. -/
structure Agree (m m' : Matcher K α) (i : Nat) (k : K) : Prop where
  /-- They have one grammar. -/
  grammar : m'.grammar = m.grammar
  /-- They have one style. -/
  style : m'.style = m.style
  /-- The kinds of their tokens agree before the index. -/
  before : ∀ j < i, (m'.tokens.get? j).map (·.kind) = (m.tokens.get? j).map (·.kind)
  /-- The second has a token of the kind at the index. -/
  there : (m'.tokens.get? i).map (·.kind) = some k

variable {m m' : Matcher K α} {i : Nat} {k : K} {r : Run K}

omit [DecidableEq K] in
/-- **What two matchers see** that agree so far: the same, or the first sees
something at the index itself, or only the second does. -/
theorem Agree.look_cases (h : m.Agree m' i k) (hr : r.index ≤ i)
    (f : K → Option β) :
    (m.look f r = none ∧ m'.look f r = none) ∨
      (∃ t t' x, m.look f r = some (t, x) ∧ m'.look f r = some (t', x)) ∨
      (r.index = i ∧ ∃ p, m.look f r = some p) ∨
      (r.index = i ∧ m.look f r = none ∧
        ∃ t x, m'.look f r = some (t, x) ∧ f k = some x) := by
  rcases Nat.lt_or_eq_of_le hr with hlt | heq
  · have hkind := h.before r.index hlt
    unfold look
    cases ht : m.tokens.get? r.index with
    | none =>
      rw [ht, Option.map_none, Option.map_eq_none_iff] at hkind
      simp [hkind]
    | some t =>
      rw [ht, Option.map_some, Option.map_eq_some_iff] at hkind
      obtain ⟨t', ht', hkind⟩ := hkind
      rw [ht']
      cases hx : f t.kind with
      | none => exact .inl (by simp [hx, hkind])
      | some x => exact .inr (.inl ⟨t, t', x, by simp [hx], by simp [hx, hkind]⟩)
  · obtain ⟨t', ht', hkind⟩ := Option.map_eq_some_iff.mp h.there
    cases hl : m.look f r with
    | some p => exact .inr (.inr (.inl ⟨heq, p, rfl⟩))
    | none =>
      cases hx : f k with
      | none => exact .inl ⟨rfl, by simp [look, heq, ht', hkind, hx]⟩
      | some x =>
        exact .inr (.inr (.inr ⟨heq, rfl, t', x,
          by simp [look, heq, ht', hkind, hx], rfl⟩))

/-- Where a token is wanted, both take it or neither does, or they part. -/
theorem Agree.token (h : m.Agree m' i k)
    (hr : r.index ≤ i) (kind : K) :
    Outcome.Parted i k (m.token kind r) (m'.token kind r) := by
  rw [m.token_eq_look, m'.token_eq_look]
  rcases h.look_cases hr (fun k => if k = kind then some () else none) with
    ⟨hl, hl'⟩ | ⟨t, t', x, hl, hl'⟩ | ⟨heq, p, hl⟩ | ⟨heq, hl, t, x, hl', hk⟩
  · rw [hl, hl']
    exact .failed
  · rw [hl, hl']
    exact .matched
  · rw [hl]
    refine .passed ?_
    rw [← heq]
    exact List.mem_cons_self
  · rw [hl, hl']
    obtain rfl : k = kind := by simpa using hk
    refine .missed ?_ ?_
    · rw [← heq]
      exact List.mem_cons_self
    · rw [← heq]
      exact List.mem_cons_self

/-! ## What the functions keep -/

variable [TokenKind K]

/-- Whatever a goal leaves keeps the trace that it was begun with. -/
theorem trace_subset_outcome (m : Matcher K α) (n : Nat) (goal : Goal K α)
    {r r' : Run K} (h : r.trace ⊆ r'.trace) :
    (m.outcome n goal r').All fun r'' => r.trace ⊆ r''.trace :=
  (m.outcome_extends n goal r').imp fun _ hext =>
    List.Subset.trans h hext.trace.subset

end Matcher

/-- **Every token before a run was taken.** -/
def Run.Tracked (r : Run K) : Prop := ∀ j < r.index, .advance j ∈ r.trace

theorem Run.Tracked.extends {m : Matcher K α} {r r' : Run K} (h : r.Tracked)
    (hext : m.Extends r r') : r'.Tracked := by
  intro j hj
  by_cases hlt : j < r.index
  · exact hext.trace.subset (h j hlt)
  · exact hext.consumed j (Nat.le_of_not_lt hlt) hj

/-- **Two goals are alike** if they are the same, up to the operand that the
second half of an expression goes on from. -/
inductive Goal.Alike : Goal K α → Goal K α → Prop
  | refl (goal : Goal K α) : Alike goal goal
  | climb (head : NonTerminal K α) (least : Nat) (left left' : Tree K α) :
      Alike (.climb head least left) (.climb head least left')

namespace Matcher

open Outcome

variable [DecidableEq K] [TokenKind K] {m m' : Matcher K α} {i : Nat} {k : K}
  {n : Nat} {r : Run K}

/-- Iterations as going on after their body: after a match that takes tokens
with further iterations, else not at all. -/
theorem outcome_iterations (m : Matcher K α) (n : Nat) (b : Clause K)
    (r : Run K) :
    m.outcome (n + 1) (.iterations b) r = (m.outcome n (.clause b) r).elim
      (fun r' => .matched [] (r'.restore r.index))
      fun trees r' =>
        if r.index < r'.index then
          (m.outcome n (.iterations b) r').map (trees ++ ·)
        else .matched [] (r'.restore r.index) := by
  show m.iterations (n + 1) b r = _
  rw [Matcher.iterations, outcome]
  cases m.clause n b r <;> rfl

/-- An operator found after an operand, as going on with what it is. -/
theorem climb_eq (m : Matcher K α) {head : NonTerminal K α} {least : Nat}
    {left : Tree K α} {t : Token K} {op : Operator K α}
    (ht : m.trailing? head least r = some (t, op)) :
    m.climb (n + 1) head least left r =
      match op.operation with
      | .postfixOp _ =>
        m.climb n head least (operatorTree head op [left, .leaf t false])
          r.advance
      | .infixOp .. =>
        (m.expression n head op.operation.threshold r.advance).elim
          (fun r' => .matched left (r'.restore r.index))
          fun right r' => m.climb n head least
            (operatorTree head op [left, .leaf t false, right]) r'
      | .prefixOp _ => .matched left r := by
  rw [Matcher.climb, ht]
  dsimp only
  cases op.operation with
  | postfixOp p => rfl
  | prefixOp p => rfl
  | infixOp p a =>
    dsimp only
    generalize (Operation.infixOp p a).threshold = least'
    cases m.expression n head least' r.advance <;> rfl

/-! ## What is seen of an operator -/

/-- An operator found after an operand is taken. -/
theorem Attempt.advance_of_trailing {head : NonTerminal K α} {least : Nat}
    {left : Tree K α} {o : Outcome K (List (Tree K α))}
    {p : Token K × Operator K α}
    (h : m.Attempt (.climb head least left) r o)
    (ht : m.trailing? head least r = some p) :
    o.All fun r' => .advance r.index ∈ r'.trace := by
  cases h with
  | noOperator hnone =>
    rw [hnone] at ht
    cases ht
  | postfixed _ _ h =>
    exact h.extends.imp fun _ hext => hext.trace.subset List.mem_cons_self
  | noRight _ _ h =>
    have hmem := (all_failed.mp h.extends).trace.subset List.mem_cons_self
    exact List.mem_cons_of_mem _ hmem
  | infixed _ _ h h' =>
    have hmem := (all_matched.mp h.extends).trace.subset List.mem_cons_self
    exact h'.extends.imp fun _ hext => hext.trace.subset hmem

/-- Where no operator is found after an operand, all kinds of operators that
bind tightly enough are wanted. -/
theorem Attempt.expect_of_trailing {head : NonTerminal K α} {least : Nat}
    {left : Tree K α} {o : Outcome K (List (Tree K α))}
    (h : m.Attempt (.climb head least left) r o)
    (ht : m.trailing? head least r = none) (hk : k ∈ head.trailingKinds least) :
    o.All fun r' => .expect r.index k ∈ r'.trace := by
  cases h with
  | noOperator => exact Run.mem_trace_expectAll.mpr (.inr ⟨k, hk, rfl⟩)
  | postfixed hsome | noRight hsome | infixed hsome =>
    rw [ht] at hsome
    cases hsome

/-- An operator found before an operand is taken. -/
theorem Attempt.advance_of_leading {head : NonTerminal K α}
    {o : Outcome K (List (Tree K α))} {p : Token K × Operator K α}
    (h : m.Attempt (.operand head) r o) (ht : m.leading? head r = some p) :
    o.All fun r' => .advance r.index ∈ r'.trace := by
  cases h with
  | noPrefix hnone =>
    rw [hnone] at ht
    cases ht
  | prefixed _ h =>
    exact (all_matched.mp h.extends).trace.subset List.mem_cons_self
  | prefixNone _ h h' =>
    have hmem := (all_failed.mp h.extends).trace.subset List.mem_cons_self
    exact h'.extends.imp fun _ hext => hext.trace.subset
      (Run.mem_trace_expectAll.mpr (.inl (List.mem_cons_of_mem _ hmem)))

/-- Where no operator is found before an operand, all kinds of operators are
wanted. -/
theorem Attempt.expect_of_leading {head : NonTerminal K α}
    {o : Outcome K (List (Tree K α))} (h : m.Attempt (.operand head) r o)
    (ht : m.leading? head r = none) (hk : k ∈ head.leadingKinds) :
    o.All fun r' => .expect r.index k ∈ r'.trace := by
  cases h with
  | noPrefix _ h =>
    exact h.extends.imp fun _ hext => hext.trace.subset
      (Run.mem_trace_expectAll.mpr (.inr ⟨k, hk, rfl⟩))
  | prefixed hsome | prefixNone hsome =>
    rw [ht] at hsome
    cases hsome

/-! ## One step of each function, for both matchers -/

/-- **What two matchers answer** within a step budget compares. -/
def Parts (m m' : Matcher K α) (i : Nat) (k : K) (n : Nat) : Prop :=
  ∀ {goal goal' : Goal K α} {r : Run K}, goal.Alike goal' → r.Tracked →
    Parted i k (m.outcome n goal r) (m'.outcome n goal' r)

namespace Parts

theorem name (ih : m.Parts m' i k n) (h : m.Agree m' i k) (hr : r.Tracked)
    (x : String) :
    Parted i k (m.outcome (n + 1) (.name x) r)
      (m'.outcome (n + 1) (.name x) r) := by
  rw [outcome, outcome, nonTerminal, nonTerminal, h.grammar]
  refine Parted.map ?_ _ _
  have hr' : (r.enter x).Tracked := hr.extends (Extends.log m r _)
  cases m.grammar.get? x with
  | none => exact .failed
  | some head =>
    dsimp only
    split
    · exact (ih (.refl (.expression head 0)) hr').of_map
    · exact (ih (.refl (.rules head head.rules)) hr').of_map

theorem rules (ih : m.Parts m' i k n) (hr : r.Tracked) (head : NonTerminal K α)
    (rules : List (Rule K α)) :
    Parted i k (m.outcome (n + 1) (.rules head rules) r)
      (m'.outcome (n + 1) (.rules head rules) r) := by
  cases rules with
  | nil =>
    show Parted i k (.failed r) (.failed r)
    exact .failed
  | cons rule rules =>
    rw [outcome, outcome, alternatives, alternatives]
    refine Parted.map (Parted.orElse (P := m.Extends r) ?_ ?_ ?_ ?_ ?_) _ _
    · exact (ih (.refl (.sequence rule.clauses)) hr).map _ _
    · exact all_map.mpr (m.outcome_extends n (.sequence rule.clauses) r)
    · intro r' hext
      exact (ih (.refl (.rules head rules)) (hr.extends hext.restore)).of_map
    · exact fun r' => all_map.mp (m.trace_subset_outcome n
        (.rules head rules) (List.subset_cons_self _ _))
    · exact fun r' => all_map.mp (m'.trace_subset_outcome n
        (.rules head rules) (List.subset_cons_self _ _))

theorem sequence (ih : m.Parts m' i k n) (hr : r.Tracked)
    (cs : List (Clause K)) :
    Parted i k (m.outcome (n + 1) (.sequence cs) r)
      (m'.outcome (n + 1) (.sequence cs) r) := by
  cases cs with
  | nil =>
    show Parted i k (.matched [] r) (.matched [] r)
    exact .matched
  | cons c cs =>
    rw [outcome, outcome, Matcher.sequence, Matcher.sequence]
    refine Parted.bind (P := m.Extends r) ?_ ?_ ?_ ?_ ?_
    · exact ih (.refl (.clause c)) hr
    · exact m.outcome_extends n (.clause c) r
    · intro ts ts' r' hext
      exact (ih (.refl (.sequence cs)) (hr.extends hext)).map _ _
    · exact fun _ r' => all_map.mpr (m.trace_subset_outcome n
        (.sequence cs) (List.Subset.refl _))
    · exact fun _ r' => all_map.mpr (m'.trace_subset_outcome n
        (.sequence cs) (List.Subset.refl _))

theorem choice (ih : m.Parts m' i k n) (hr : r.Tracked)
    (bs : List (Clause K)) :
    Parted i k (m.outcome (n + 1) (.choice bs) r)
      (m'.outcome (n + 1) (.choice bs) r) := by
  cases bs with
  | nil =>
    show Parted i k (.failed r) (.failed r)
    exact .failed
  | cons b bs =>
    rw [outcome, outcome, Matcher.choice, Matcher.choice]
    refine Parted.orElse (P := m.Extends r) ?_ ?_ ?_ ?_ ?_
    · exact ih (.refl (.clause b)) hr
    · exact m.outcome_extends n (.clause b) r
    · intro r' hext
      exact ih (.refl (.choice bs)) (hr.extends hext.restore)
    · exact fun r' => m.trace_subset_outcome n (.choice bs)
        (List.subset_cons_self _ _)
    · exact fun r' => m'.trace_subset_outcome n (.choice bs)
        (List.subset_cons_self _ _)

theorem iterations (ih : m.Parts m' i k n) (hr : r.Tracked) (b : Clause K) :
    Parted i k (m.outcome (n + 1) (.iterations b) r)
      (m'.outcome (n + 1) (.iterations b) r) := by
  rw [m.outcome_iterations, m'.outcome_iterations]
  refine Parted.elim (P := m.Extends r) ?_ ?_ ?_ ?_ ⟨?_, ?_⟩ ⟨?_, ?_⟩
  · exact ih (.refl (.clause b)) hr
  · exact m.outcome_extends n (.clause b) r
  · exact fun r' _ => .matched
  · intro ts ts' r' hext
    split
    · exact (ih (.refl (.iterations b)) (hr.extends hext)).map _ _
    · exact .matched
  · exact fun r' => List.subset_cons_self _ _
  · intro ts r'
    split
    · exact all_map.mpr (m.trace_subset_outcome n (.iterations b)
        (List.Subset.refl _))
    · exact List.subset_cons_self _ _
  · exact fun r' => List.subset_cons_self _ _
  · intro ts r'
    split
    · exact all_map.mpr (m'.trace_subset_outcome n (.iterations b)
        (List.Subset.refl _))
    · exact List.subset_cons_self _ _

theorem clause (ih : m.Parts m' i k n) (h : m.Agree m' i k) (hr : r.Tracked)
    (hi : r.index ≤ i) (c : Clause K) :
    Parted i k (m.outcome (n + 1) (.clause c) r)
      (m'.outcome (n + 1) (.clause c) r) := by
  cases ha : m.style.allows c with
  | false =>
    have ha' : m'.style.allows c = false := by rw [h.style, ha]
    rw [outcome, outcome, clause_refused ha, clause_refused ha']
    exact .failed
  | true =>
    have ha' : m'.style.allows c = true := by rw [h.style, ha]
    cases c with
    | token kind d =>
      rw [outcome, outcome, Matcher.clause, Matcher.clause, if_pos ha,
        if_pos ha']
      exact (h.token hi kind).map _ _
    | reference x d =>
      rw [outcome, outcome, Matcher.clause, Matcher.clause, if_pos ha,
        if_pos ha']
      exact (ih (.refl (.name x)) hr).of_map.map _ _
    | group cs =>
      rw [outcome, outcome, Matcher.clause, Matcher.clause, if_pos ha,
        if_pos ha']
      exact ih (.refl (.sequence cs)) hr
    | choice bs =>
      rw [outcome, outcome, Matcher.clause, Matcher.clause, if_pos ha,
        if_pos ha']
      exact ih (.refl (.choice bs)) hr
    | optional b =>
      rw [outcome, outcome, Matcher.clause, Matcher.clause, if_pos ha,
        if_pos ha']
      refine Parted.map (Parted.orElse (P := m.Extends r) ?_ ?_ ?_ ?_ ?_) _ _
      · exact ih (.refl (.clause b)) hr
      · exact m.outcome_extends n (.clause b) r
      · exact fun r' _ => .matched
      · exact fun r' => List.subset_cons_self _ _
      · exact fun r' => List.subset_cons_self _ _
    | star b =>
      rw [outcome, outcome, Matcher.clause, Matcher.clause, if_pos ha,
        if_pos ha']
      exact (ih (.refl (.iterations b)) hr).map _ _
    | plus b =>
      rw [outcome, outcome, Matcher.clause, Matcher.clause, if_pos ha,
        if_pos ha']
      refine Parted.bind (P := m.Extends r) ?_ ?_ ?_ ?_ ?_
      · exact ih (.refl (.clause b)) hr
      · exact m.outcome_extends n (.clause b) r
      · intro ts ts' r' hext
        exact (ih (.refl (.iterations b)) (hr.extends hext)).map _ _
      · exact fun _ r' => all_map.mpr (m.trace_subset_outcome n
          (.iterations b) (List.Subset.refl _))
      · exact fun _ r' => all_map.mpr (m'.trace_subset_outcome n
          (.iterations b) (List.Subset.refl _))

theorem expression (ih : m.Parts m' i k n) (hr : r.Tracked)
    (head : NonTerminal K α) (least : Nat) :
    Parted i k (m.outcome (n + 1) (.expression head least) r)
      (m'.outcome (n + 1) (.expression head least) r) := by
  rw [outcome, outcome, Matcher.expression, Matcher.expression]
  refine Parted.map (Parted.bind (P := m.Extends r) ?_ ?_ ?_ ?_ ?_) _ _
  · exact (ih (.refl (.operand head)) hr).of_map
  · exact all_map.mp (m.outcome_extends n (.operand head) r)
  · intro left left' r' hext
    exact (ih (.climb head least left left') (hr.extends hext)).of_map
  · exact fun left r' => all_map.mp (m.trace_subset_outcome n
      (.climb head least left) (List.Subset.refl _))
  · exact fun left r' => all_map.mp (m'.trace_subset_outcome n
      (.climb head least left) (List.Subset.refl _))

/-- Both go on with the operator that both find after an operand. -/
theorem climb_over (ih : m.Parts m' i k n) (hr : r.Tracked)
    {head : NonTerminal K α} {least : Nat} {left left' : Tree K α}
    {t t' : Token K} {op : Operator K α}
    (ht : m.trailing? head least r = some (t, op))
    (ht' : m'.trailing? head least r = some (t', op)) :
    Parted i k (m.climb (n + 1) head least left r)
      (m'.climb (n + 1) head least left' r) := by
  have hr' : r.advance.Tracked := hr.extends (Extends.advance_trailing ht)
  rw [m.climb_eq ht, m'.climb_eq ht']
  split
  · exact (ih (.climb head least _ _) hr').of_map
  · refine Parted.elim (P := m.Extends r.advance) ?_ ?_ ?_ ?_ ⟨?_, ?_⟩ ⟨?_, ?_⟩
    · exact (ih (.refl (.expression head op.operation.threshold)) hr').of_map
    · exact all_map.mp (m.outcome_extends n
        (.expression head op.operation.threshold) r.advance)
    · exact fun r' _ => .matched
    · intro right right' r' hext
      exact (ih (.climb head least _ _) (hr'.extends hext)).of_map
    · exact fun r' => List.subset_cons_self _ _
    · exact fun right r' => all_map.mp (m.trace_subset_outcome n
        (.climb head least (operatorTree head op [left, .leaf t false, right]))
        (List.Subset.refl _))
    · exact fun r' => List.subset_cons_self _ _
    · exact fun right r' => all_map.mp (m'.trace_subset_outcome n
        (.climb head least
          (operatorTree head op [left', .leaf t' false, right]))
        (List.Subset.refl _))
  · exact .matched

theorem climb (ih : m.Parts m' i k n) (h : m.Agree m' i k) (hr : r.Tracked)
    (hi : r.index ≤ i) (head : NonTerminal K α) (least : Nat)
    (left left' : Tree K α) :
    Parted i k (m.outcome (n + 1) (.climb head least left) r)
      (m'.outcome (n + 1) (.climb head least left') r) := by
  rcases h.look_cases hi fun k =>
      (head.trailingOperator? k).filter (least ≤ ·.precedence) with
    ⟨hl, hl'⟩ | ⟨t, t', op, hl, hl'⟩ | ⟨rfl, p, hl⟩ | ⟨rfl, hl, t', op, hl', hop⟩
  all_goals rw [← m.trailing?_eq_look] at hl
  · rw [← m'.trailing?_eq_look] at hl'
    rw [outcome, outcome, Matcher.climb, Matcher.climb, hl, hl']
    exact .matched
  · rw [← m'.trailing?_eq_look] at hl'
    exact (climb_over ih hr hl hl').map _ _
  · -- the first takes its token here
    exact .passed (all_outcome (fun _ hatt => hatt.advance_of_trailing hl) _)
  · rw [← m'.trailing?_eq_look] at hl'
    refine .missed
      (all_outcome (fun _ hatt => hatt.expect_of_trailing hl ?_) _)
      (all_outcome (fun _ hatt => hatt.advance_of_trailing hl') _)
    exact NonTerminal.mem_trailingKinds hop

/-- Both go on with the operator that both find before an operand. -/
theorem operand_over (ih : m.Parts m' i k n) (hr : r.Tracked)
    {head : NonTerminal K α} {t t' : Token K} {op : Operator K α}
    (ht : m.leading? head r = some (t, op))
    (ht' : m'.leading? head r = some (t', op)) :
    Parted i k (m.operand (n + 1) head r) (m'.operand (n + 1) head r) := by
  have hr' : r.advance.Tracked := hr.extends (Extends.advance_leading ht)
  rw [Matcher.operand, Matcher.operand, ht, ht']
  refine Parted.orElse (P := m.Extends r.advance) ?_ ?_ ?_ ?_ ?_
  · exact (ih (.refl (.expression head op.precedence)) hr').of_map.map _ _
  · exact all_map.mpr (all_map.mp (m.outcome_extends n
      (.expression head op.precedence) r.advance))
  · intro r' hext
    have hback := ((Extends.advance_leading ht).trans hext).restore
    exact (ih (.refl (.rules head head.rules))
      (hr.extends (hback.trans (.expectAll m _ _)))).of_map
  · exact fun r' => all_map.mp (m.trace_subset_outcome n
      (.rules head head.rules) fun e he =>
        Run.mem_trace_expectAll.mpr (.inl (List.mem_cons_of_mem _ he)))
  · exact fun r' => all_map.mp (m'.trace_subset_outcome n
      (.rules head head.rules) fun e he =>
        Run.mem_trace_expectAll.mpr (.inl (List.mem_cons_of_mem _ he)))

theorem operand (ih : m.Parts m' i k n) (h : m.Agree m' i k) (hr : r.Tracked)
    (hi : r.index ≤ i) (head : NonTerminal K α) :
    Parted i k (m.outcome (n + 1) (.operand head) r)
      (m'.outcome (n + 1) (.operand head) r) := by
  rcases h.look_cases hi head.leadingOperator? with
    ⟨hl, hl'⟩ | ⟨t, t', op, hl, hl'⟩ | ⟨rfl, p, hl⟩ | ⟨rfl, hl, t', op, hl', hop⟩
  all_goals rw [← m.leading?_eq_look] at hl
  · rw [← m'.leading?_eq_look] at hl'
    rw [outcome, outcome, Matcher.operand, Matcher.operand, hl, hl']
    exact ih (.refl (.rules head head.rules))
      (hr.extends (.expectAll m r head.leadingKinds))
  · rw [← m'.leading?_eq_look] at hl'
    exact (operand_over ih hr hl hl').map _ _
  · -- the first takes its token here
    exact .passed (all_outcome (fun _ hatt => hatt.advance_of_leading hl) _)
  · rw [← m'.leading?_eq_look] at hl'
    refine .missed
      (all_outcome (fun _ hatt => hatt.expect_of_leading hl ?_) _)
      (all_outcome (fun _ hatt => hatt.advance_of_leading hl') _)
    exact NonTerminal.mem_leadingKinds_iff.mpr ⟨op, hop⟩

end Parts

/-- **Two matchers do the same until the token at the index parts them.** -/
theorem Agree.parted (h : m.Agree m' i k) (n : Nat) : m.Parts m' i k n := by
  induction n with
  | zero =>
    intro goal goal' r hgoal _
    cases hgoal with
    | refl goal => cases goal <;> exact .exhausted
    | climb => exact .exhausted
  | succ n ih =>
    intro goal goal' r hgoal hr
    rcases Nat.lt_or_ge i r.index with hlt | hi
    · -- the token at the index was taken before
      exact .passed ((m.outcome_extends (n + 1) goal r).imp fun _ hext =>
        hext.trace.subset (hr i hlt))
    · cases hgoal with
      | climb head least left left' =>
        exact Parts.climb ih h hr hi head least left left'
      | refl goal =>
        cases goal with
        | name x => exact Parts.name ih h hr x
        | rules head rules => exact Parts.rules ih hr head rules
        | sequence cs => exact Parts.sequence ih hr cs
        | clause c => exact Parts.clause ih h hr hi c
        | choice bs => exact Parts.choice ih hr bs
        | iterations b => exact Parts.iterations ih hr b
        | expression head least => exact Parts.expression ih hr head least
        | climb head least left =>
          exact Parts.climb ih h hr hi head least left left
        | operand head => exact Parts.operand ih h hr hi head

end Matcher

end Descent
