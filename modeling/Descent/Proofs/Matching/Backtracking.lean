import Descent.Proofs.Matching.Expected
import Descent.Proofs.Matching.Grouping
import Descent.Token.Cursor

/-!
# What a run goes back to

A failed attempt does not undo itself, so whoever tries something else goes back
first. It does so to where it began: of the goals that try one thing after the other
none fails anywhere else (`Attempt.leaves`).

A run is a list of events and an index, and could go back to any index. That it is a
run of a cursor that moves in the token list is what `Run.IsOrderly` says: the cursor
can follow all events without a fault, it stands where the run stands, and whenever
it went back it went to an index that it had not passed yet. Each move of a run keeps
that.

All of this holds throughout a run, and so also in a run that does not end. What a
run does are trials, each of which makes further ones (`Matcher.trials`). Those that
come from the first trial are the calls of the run, whether or not they are ever
answered: a run that does not end within its steps has a trial on which the last of
them was spent (`Matcher.exists_undergoes_of_exhausted`). Each is begun with an
orderly run and leaves one (`Matcher.frame_law`).
-/

namespace Descent

variable {K α β γ : Type}

/-! ## A cursor that follows a run -/

namespace Cursor

/-- What an event does to a cursor. -/
def follow (c : Cursor K) : Event K → Except Fault (Cursor K)
  | .advance _ => .ok c.advance.2
  | .restore _ target => c.restore ⟨target⟩
  | .expect .. | .reach _ | .enter .. => .ok c

/-- What a trace does to a cursor. The latest event stands first. -/
def followAll (c : Cursor K) : List (Event K) → Except Fault (Cursor K)
  | [] => .ok c
  | e :: trace => (c.followAll trace).bind (·.follow e)

end Cursor

namespace Run

/-- **A run is orderly** if a cursor can follow it. -/
structure IsOrderly [DecidableEq K] (tokens : TokenList K) (r : Run K) : Prop where
  /-- The cursor is never sent past the end, and stands where the run stands. -/
  cursor : (Cursor.ofTokens tokens).followAll r.trace = .ok ⟨tokens, r.index⟩
  /-- The run stands at a token or after the last one. -/
  index_le : r.index ≤ tokens.length
  /-- Whenever the run went back, it went from where the cursor stood to an index
  that is not further on. -/
  restores : ∀ source target earlier, .restore source target :: earlier <:+ r.trace →
    (Cursor.ofTokens tokens).followAll earlier = .ok ⟨tokens, source⟩ ∧
      target ≤ source ∧ source ≤ tokens.length
  /-- At no two moments of the run the later has its furthest failure before the
  earlier. -/
  furthest : ∀ earlier later, earlier <:+ later → later <:+ r.trace →
    (Furthest.ofTrace earlier).NoFurther (.ofTrace later)

namespace IsOrderly

variable [DecidableEq K] {tokens : TokenList K} {r r' : Run K}

theorem start (tokens : TokenList K) : (Run.start : Run K).IsOrderly tokens where
  cursor := rfl
  index_le := Nat.zero_le _
  restores _ _ _ h := by cases List.suffix_nil.mp h
  furthest _ _ h _ := Furthest.noFurther_of_suffix h

/-- Every event that the cursor can follow keeps a run orderly. -/
theorem concat (h : r.IsOrderly tokens) {e : Event K} {i : Nat}
    (hfollow : (⟨tokens, r.index⟩ : Cursor K).follow e = .ok ⟨tokens, i⟩)
    (hi : i ≤ tokens.length)
    (hback : ∀ source target, e = .restore source target →
      source = r.index ∧ target ≤ r.index) :
    (⟨i, e :: r.trace⟩ : Run K).IsOrderly tokens where
  cursor := by
    rw [Cursor.followAll, h.cursor]
    exact hfollow
  index_le := hi
  restores source target earlier hsuf := by
    rcases List.suffix_cons_iff.mp hsuf with heq | hsuf
    · obtain ⟨rfl, rfl⟩ := List.cons.inj heq
      obtain ⟨rfl, hle⟩ := hback source target rfl
      exact ⟨h.cursor, hle, h.index_le⟩
    · exact h.restores source target earlier hsuf
  furthest _ _ hsuf _ := Furthest.noFurther_of_suffix hsuf

/-- **A move keeps a run orderly.** -/
theorem moves (h : r.IsOrderly tokens) (hr : r.Moves tokens r') :
    r'.IsOrderly tokens := by
  cases hr with
  | enter | reach | expect =>
    exact h.concat rfl h.index_le fun _ _ heq => by cases heq
  | advance ht =>
    have hlt := TokenList.lt_length_of_get? ht
    refine h.concat ?_ hlt fun _ _ heq => by cases heq
    simp [Cursor.follow, Cursor.advance, Cursor.current, ht]
  | @restore i hle =>
    have hi : i ≤ tokens.length := Nat.le_trans hle h.index_le
    refine h.concat ?_ hi fun source target heq => ?_
    · simp [Cursor.follow, Cursor.restore, Cursor.seek, hi]
    · obtain ⟨rfl, rfl⟩ := Event.restore.inj heq
      exact ⟨rfl, hle⟩

theorem movesTo (h : r.IsOrderly tokens) (hr : r.MovesTo tokens r') :
    r'.IsOrderly tokens := by
  induction hr with
  | refl => exact h
  | tail _ hmove ih => exact ih.moves hmove

end IsOrderly

end Run

/-! ## Where attempts leave their runs -/

/-- **How a failing goal leaves a run**, which was begun as another. What tries one
thing after the other goes back to where it began, clauses may stop on their way,
and iterations and operators after an operand do not fail. -/
def Goal.LeavesFailed (r r' : Run K) : Goal K α → Prop
  | .name _ | .rules .. | .choice _ | .expression .. | .operand _ =>
    r'.index = r.index
  | .sequence _ | .clause _ => r.index ≤ r'.index
  | .iterations _ | .climb .. => False

namespace Matcher

variable {m : Matcher K α} [DecidableEq K] [TokenKind K]

/-- **A failed attempt leaves its run as its goal says**, and a match leaves it where
it began or further on. -/
theorem Attempt.leaves {goal : Goal K α} {r : Run K}
    {o : Outcome K (List (Tree K α))} (h : m.Attempt goal r o) :
    o.Ensures (goal.LeavesFailed r) fun _ r' => r.index ≤ r'.index := by
  induction h with
  | undeclared | noRule | noBranch => exact rfl
  | refused | noToken | done | optionalNone | stop | still | noRight =>
    exact Nat.le_refl _
  | token => exact Nat.le_succ _
  | head _ _ _ ih | plain _ _ _ ih | rule _ ih | nextRule _ _ _ ih | stuck _ ih
  | group _ _ ih | optional _ _ ih | plusNone _ _ ih | branch _ ih
  | nextBranch _ _ _ ih | noOperand _ ih => exact ih
  | andThen _ _ ih ih' =>
    exact Outcome.ensures_map.mpr
      (ih'.imp (fun _ => Nat.le_trans ih) fun _ _ => Nat.le_trans ih)
  | reference _ ih =>
    exact Outcome.ensures_map.mpr (ih.imp (fun _ => Nat.le_of_eq ∘ Eq.symm) fun _ _ => id)
  | choice _ _ ih => exact ih.imp (fun _ => Nat.le_of_eq ∘ Eq.symm) fun _ _ => id
  | star _ _ ih => exact Outcome.ensures_map.mpr (ih.imp (fun _ => False.elim) fun _ _ => id)
  | plus _ _ _ ih ih' =>
    exact Outcome.ensures_map.mpr
      (ih'.imp (fun _ => False.elim) fun _ _ => Nat.le_trans ih)
  | again _ _ _ ih ih' =>
    exact Outcome.ensures_map.mpr (ih'.imp (fun _ => id) fun _ _ => Nat.le_trans ih)
  | fromOperand _ _ ih ih' =>
    exact ih'.imp (fun _ => False.elim) fun _ _ => Nat.le_trans ih
  | noOperator => exact Nat.le_of_eq (Run.index_expectAll _ _).symm
  | postfixed _ _ _ ih =>
    exact ih.imp (fun _ => id) fun _ _ => Nat.le_trans (Nat.le_succ _)
  | infixed _ _ _ _ ih ih' =>
    exact ih'.imp (fun _ => id) fun _ _ =>
      Nat.le_trans (Nat.le_trans (Nat.le_succ _) ih)
  | noPrefix _ _ ih | prefixNone _ _ _ _ ih => simpa [Goal.LeavesFailed] using ih
  | prefixed _ _ ih => exact Nat.le_trans (Nat.le_succ _) ih

end Matcher

/-! ## The trials of a run -/

namespace Outcome

/-- What follows a match. -/
def afterMatch : Outcome K β → (β → Run K → List γ) → List γ
  | matched x r, f => f x r
  | failed _, _ | exhausted, _ => []

/-- What follows a failure. -/
def afterFailure : Outcome K β → (Run K → List γ) → List γ
  | failed r, f => f r
  | matched .., _ | exhausted, _ => []

variable {P : γ → Prop}

theorem forall_mem_afterMatch {o : Outcome K β} {f : β → Run K → List γ} :
    (∀ y ∈ o.afterMatch f, P y) ↔ ∀ x r, o = .matched x r → ∀ y ∈ f x r, P y := by
  cases o <;> simp [afterMatch]

theorem forall_mem_afterFailure {o : Outcome K β} {f : Run K → List γ} :
    (∀ y ∈ o.afterFailure f, P y) ↔ ∀ r, o = .failed r → ∀ y ∈ f r, P y := by
  cases o <;> simp [afterFailure]

@[simp] theorem exists_mem_afterMatch {o : Outcome K β} {f : β → Run K → List γ} :
    (∃ y ∈ o.afterMatch f, P y) ↔ ∃ x r, o = .matched x r ∧ ∃ y ∈ f x r, P y := by
  cases o <;> simp [afterMatch]

@[simp] theorem exists_mem_afterFailure {o : Outcome K β} {f : Run K → List γ} :
    (∃ y ∈ o.afterFailure f, P y) ↔ ∃ r, o = .failed r ∧ ∃ y ∈ f r, P y := by
  cases o <;> simp [afterFailure]

@[simp] theorem bind_eq_exhausted_iff {o : Outcome K β} {f : β → Run K → Outcome K γ} :
    o.bind f = .exhausted ↔
      o = .exhausted ∨ ∃ x r, o = .matched x r ∧ f x r = .exhausted := by
  cases o <;> simp

@[simp] theorem orElse_eq_exhausted_iff {o : Outcome K β} {f : Run K → Outcome K β} :
    o.orElse f = .exhausted ↔
      o = .exhausted ∨ ∃ r, o = .failed r ∧ f r = .exhausted := by
  cases o <;> simp

end Outcome

namespace Matcher

variable [DecidableEq K] [TokenKind K]

/-- **What is tried for a goal** with `n` steps for each: the goals that the
functions go on to, and the runs they begin them with. -/
def trials (m : Matcher K α) (n : Nat) : Goal K α → Run K → List (Goal K α × Run K)
  | .name x, r =>
    match m.grammar.get? x with
    | none => []
    | some head =>
      if head.isHead then [(.expression head 0, r.enter x)]
      else [(.rules head head.rules, r.enter x)]
  | .rules _ [], _ | .sequence [], _ | .choice [], _ => []
  | .rules head (rule :: rules), r =>
    (.sequence rule.clauses, r) ::
      (m.sequence n rule.clauses r).afterFailure fun r' =>
        [(.rules head rules, r'.restore r.index)]
  | .sequence (c :: cs), r =>
    (.clause c, r) :: (m.clause n c r).afterMatch fun _ r' => [(.sequence cs, r')]
  | .clause c, r =>
    if m.style.allows c then
      match c with
      | .token .. => []
      | .reference x _ => [(.name x, r)]
      | .group cs => [(.sequence cs, r)]
      | .choice bs => [(.choice bs, r)]
      | .optional b => [(.clause b, r)]
      | .star b => [(.iterations b, r)]
      | .plus b =>
        (.clause b, r) :: (m.clause n b r).afterMatch fun _ r' => [(.iterations b, r')]
    else []
  | .choice (b :: bs), r =>
    (.clause b, r) ::
      (m.clause n b r).afterFailure fun r' => [(.choice bs, r'.restore r.index)]
  | .iterations b, r =>
    (.clause b, r) ::
      (m.clause n b r).afterMatch fun _ r' =>
        if r.index < r'.index then [(.iterations b, r')] else []
  | .expression head least, r =>
    (.operand head, r) ::
      (m.operand n head r).afterMatch fun left r' => [(.climb head least left, r')]
  | .climb head least left, r =>
    match m.trailing? head least r with
    | none => []
    | some (t, o) =>
      match o.operation with
      | .postfixOp _ =>
        [(.climb head least (operatorTree head o [left, .leaf t false]), r.advance)]
      | .infixOp .. =>
        (.expression head o.operation.threshold, r.advance) ::
          (m.expression n head o.operation.threshold r.advance).afterMatch
            fun right r' =>
              [(.climb head least (operatorTree head o [left, .leaf t false, right]), r')]
      | .prefixOp _ => []
  | .operand head, r =>
    match m.leading? head r with
    | none => [(.rules head head.rules, r.expectAll head.leadingKinds)]
    | some (_, o) =>
      (.expression head o.precedence, r.advance) ::
        (m.expression n head o.precedence r.advance).afterFailure fun r' =>
          [(.rules head head.rules, (r'.restore r.index).expectAll head.leadingKinds)]

/-- **A trial**: a goal, the run it is begun with, and the steps that may be
spent. -/
structure Trial (K α : Type) where
  /-- The steps that may be spent. -/
  budget : Nat
  /-- What is tried. -/
  goal : Goal K α
  /-- The run it is begun with. -/
  run : Run K

/-- One trial makes another. -/
def Tries (m : Matcher K α) (t t' : Trial K α) : Prop :=
  t.budget = t'.budget + 1 ∧ (t'.goal, t'.run) ∈ m.trials t'.budget t.goal t.run

/-- **The trials that come from a trial**, the trial itself among them. -/
def Undergoes (m : Matcher K α) : Trial K α → Trial K α → Prop :=
  Relation.ReflTransGen m.Tries

/-! ## What trials begin with and leave -/

variable {m : Matcher K α} {n : Nat} {goal : Goal K α} {r r' : Run K}

/-- Whatever the functions answer leaves a run as the goal says. -/
theorem outcome_leaves (m : Matcher K α) (n : Nat) (goal : Goal K α) (r : Run K) :
    (m.outcome n goal r).Ensures (goal.LeavesFailed r) fun _ r' => r.index ≤ r'.index :=
  ensures_outcome (fun _ hatt => hatt.leaves) n

/-- Whatever the functions answer is come to in moves. -/
theorem outcome_movesTo (m : Matcher K α) (n : Nat) (goal : Goal K α) (r : Run K) :
    (m.outcome n goal r).All (r.MovesTo m.tokens) :=
  all_outcome (fun _ hatt => hatt.movesTo) n

/-- A trial goes on from a match. -/
theorem movesTo_of_matched (goal : Goal K α) {ts : List (Tree K α)}
    (h : m.outcome n goal r = .matched ts r') : r.MovesTo m.tokens r' :=
  Outcome.all_matched.mp (h ▸ m.outcome_movesTo n goal r)

/-- After a failure a trial goes back to where it began. -/
theorem movesTo_restore_of_failed (goal : Goal K α)
    (h : m.outcome n goal r = .failed r') :
    r.MovesTo m.tokens (r'.restore r.index) :=
  (Outcome.all_failed.mp (h ▸ m.outcome_movesTo n goal r)).restore
    (Outcome.all_failed.mp (h ▸ m.outcome_extends n goal r)).le

theorem movesTo_of_mem_trials_clause (m : Matcher K α) (n : Nat) (c : Clause K)
    (r : Run K) : ∀ t ∈ m.trials n (.clause c) r, r.MovesTo m.tokens t.2 := by
  have hbody (g : Goal K α) : ∀ t ∈ [(g, r)], r.MovesTo m.tokens t.2 :=
    List.forall_mem_singleton.mpr (.refl r)
  -- the style is asked before the clause is looked at
  change ∀ t ∈ (if m.style.allows c then _ else [] : List (Goal K α × Run K)),
    r.MovesTo m.tokens t.2
  split
  · cases c with
    | token k d => exact List.forall_mem_nil _
    | reference x d => exact hbody (.name x)
    | group cs => exact hbody (.sequence cs)
    | choice bs => exact hbody (.choice bs)
    | optional b => exact hbody (.clause b)
    | star b => exact hbody (.iterations b)
    | plus b =>
      refine List.forall_mem_cons.mpr ⟨.refl r, ?_⟩
      refine Outcome.forall_mem_afterMatch.mpr fun ts r' hr => ?_
      exact List.forall_mem_singleton.mpr (movesTo_of_matched (.clause b) hr)
  · exact List.forall_mem_nil _

theorem movesTo_of_mem_trials_climb (m : Matcher K α) (n : Nat)
    (head : NonTerminal K α) (least : Nat) (left : Tree K α) (r : Run K) :
    ∀ t ∈ m.trials n (.climb head least left) r, r.MovesTo m.tokens t.2 := by
  rw [trials]
  split
  · exact List.forall_mem_nil _
  · next t o ht =>
    have hmove := movesTo_advance_trailing ht
    split
    · exact List.forall_mem_singleton.mpr hmove
    · refine List.forall_mem_cons.mpr ⟨hmove, ?_⟩
      refine Outcome.forall_mem_afterMatch.mpr fun right r' hr => ?_
      have ho : m.outcome n (.expression head o.operation.threshold) r.advance =
          .matched [right] r' := by
        rw [outcome, hr, Outcome.map_matched]
      exact List.forall_mem_singleton.mpr (hmove.trans (movesTo_of_matched _ ho))
    · exact List.forall_mem_nil _

theorem movesTo_of_mem_trials_operand (m : Matcher K α) (n : Nat)
    (head : NonTerminal K α) (r : Run K) :
    ∀ t ∈ m.trials n (.operand head) r, r.MovesTo m.tokens t.2 := by
  rw [trials]
  split
  · exact List.forall_mem_singleton.mpr (.expectAll _ _ _)
  · next t o ht =>
    have hmove := movesTo_advance_leading ht
    refine List.forall_mem_cons.mpr ⟨hmove, ?_⟩
    refine Outcome.forall_mem_afterFailure.mpr fun r' hr => ?_
    have ho : m.outcome n (.expression head o.precedence) r.advance = .failed r' := by
      rw [outcome, hr, Outcome.map_failed]
    -- the operator is given back as well: the run goes back to before the expression
    have hle := (Extends.advance_leading ht).trans
      (Outcome.all_failed.mp (ho ▸ m.outcome_extends n _ _))
    have hback := (hmove.trans
      (Outcome.all_failed.mp (ho ▸ m.outcome_movesTo n _ _))).restore hle.le
    exact List.forall_mem_singleton.mpr (hback.trans (.expectAll _ _ _))

/-- **A trial is begun with a run that the trial before it has come to.** -/
theorem movesTo_of_mem_trials (m : Matcher K α) (n : Nat) (goal : Goal K α)
    (r : Run K) : ∀ t ∈ m.trials n goal r, r.MovesTo m.tokens t.2 := by
  cases goal with
  | name x =>
    rw [trials]
    split
    · exact List.forall_mem_nil _
    · split <;> exact List.forall_mem_singleton.mpr (.of_moves (.enter r x))
  | rules head rules =>
    cases rules with
    | nil => exact List.forall_mem_nil _
    | cons rule rules =>
      refine List.forall_mem_cons.mpr ⟨.refl r, ?_⟩
      refine Outcome.forall_mem_afterFailure.mpr fun r' hr => ?_
      exact List.forall_mem_singleton.mpr
        (movesTo_restore_of_failed (.sequence rule.clauses) hr)
  | sequence cs =>
    cases cs with
    | nil => exact List.forall_mem_nil _
    | cons c cs =>
      refine List.forall_mem_cons.mpr ⟨.refl r, ?_⟩
      refine Outcome.forall_mem_afterMatch.mpr fun ts r' hr => ?_
      exact List.forall_mem_singleton.mpr (movesTo_of_matched (.clause c) hr)
  | clause c => exact m.movesTo_of_mem_trials_clause n c r
  | choice bs =>
    cases bs with
    | nil => exact List.forall_mem_nil _
    | cons b bs =>
      refine List.forall_mem_cons.mpr ⟨.refl r, ?_⟩
      refine Outcome.forall_mem_afterFailure.mpr fun r' hr => ?_
      exact List.forall_mem_singleton.mpr (movesTo_restore_of_failed (.clause b) hr)
  | iterations b =>
    refine List.forall_mem_cons.mpr ⟨.refl r, ?_⟩
    refine Outcome.forall_mem_afterMatch.mpr fun ts r' hr => ?_
    split
    · exact List.forall_mem_singleton.mpr (movesTo_of_matched (.clause b) hr)
    · exact List.forall_mem_nil _
  | expression head least =>
    refine List.forall_mem_cons.mpr ⟨.refl r, ?_⟩
    refine Outcome.forall_mem_afterMatch.mpr fun left r' hr => ?_
    exact List.forall_mem_singleton.mpr
      (movesTo_of_matched (.operand head) (by rw [outcome, hr, Outcome.map_matched]))
  | climb head least left => exact m.movesTo_of_mem_trials_climb n head least left r
  | operand head => exact m.movesTo_of_mem_trials_operand n head r

/-- **Every trial of a run is begun with an orderly run.** -/
theorem Undergoes.isOrderly {t t' : Trial K α} (h : m.Undergoes t t')
    (ht : t.run.IsOrderly m.tokens) : t'.run.IsOrderly m.tokens := by
  induction h with
  | refl => exact ht
  | tail _ htry ih => exact ih.movesTo (m.movesTo_of_mem_trials _ _ _ _ htry.2)

theorem exists_mem_trials_of_clause_exhausted {c : Clause K}
    (h : m.outcome (n + 1) (.clause c) r = .exhausted) :
    ∃ t ∈ m.trials n (.clause c) r, m.outcome n t.1 t.2 = .exhausted := by
  cases ha : m.style.allows c with
  | false =>
    rw [outcome, clause_refused ha] at h
    cases h
  | true =>
    cases c with
    | token k d =>
      rw [outcome, Matcher.clause, if_pos ha, Outcome.map_eq_exhausted_iff,
        Matcher.token] at h
      split at h
      · split at h <;> cases h
      · cases h
    | reference x d | group cs | choice bs | optional b | star b | plus b =>
      simpa [trials, outcome, Matcher.clause, ha] using h

theorem exists_mem_trials_of_climb_exhausted {head : NonTerminal K α} {least : Nat}
    {left : Tree K α} (h : m.outcome (n + 1) (.climb head least left) r = .exhausted) :
    ∃ t ∈ m.trials n (.climb head least left) r,
      m.outcome n t.1 t.2 = .exhausted := by
  rw [outcome, Outcome.map_eq_exhausted_iff, Matcher.climb] at h
  cases ht : m.trailing? head least r with
  | none => simp [ht] at h
  | some found =>
    obtain ⟨t, o⟩ := found
    cases hop : o.operation with
    | postfixOp p => simpa [trials, outcome, ht, hop] using h
    | infixOp p a =>
      cases hr : m.expression n head o.operation.threshold r.advance <;>
        simp_all [trials, outcome]
    | prefixOp p => simp [ht, hop] at h

/-- **A goal for which the steps do not suffice tries one for which they do not.** -/
theorem exists_mem_trials_of_exhausted (h : m.outcome (n + 1) goal r = .exhausted) :
    ∃ t ∈ m.trials n goal r, m.outcome n t.1 t.2 = .exhausted := by
  cases goal with
  | name x =>
    rw [outcome, Outcome.map_eq_exhausted_iff, nonTerminal] at h
    cases hx : m.grammar.get? x with
    | none => simp [hx] at h
    | some head =>
      by_cases hh : head.isHead = true <;> simpa [trials, outcome, hx, hh] using h
  | rules head rules =>
    cases rules with
    | nil => cases h
    | cons rule rules => simpa [trials, outcome, alternatives] using h
  | sequence cs =>
    cases cs with
    | nil => cases h
    | cons c cs => simpa [trials, outcome, Matcher.sequence] using h
  | clause c => exact exists_mem_trials_of_clause_exhausted h
  | choice bs =>
    cases bs with
    | nil => cases h
    | cons b bs => simpa [trials, outcome, Matcher.choice] using h
  | iterations b =>
    rw [outcome, Matcher.iterations] at h
    cases hb : m.clause n b r with
    | exhausted => simp [trials, outcome, hb]
    | failed r' => simp [hb] at h
    | matched ts r' =>
      by_cases hlt : r.index < r'.index
      · simpa [trials, outcome, hb, hlt] using h
      · simp [hb, hlt] at h
  | expression head least => simpa [trials, outcome, Matcher.expression] using h
  | climb head least left => exact exists_mem_trials_of_climb_exhausted h
  | operand head =>
    rw [outcome, Outcome.map_eq_exhausted_iff, Matcher.operand] at h
    cases ht : m.leading? head r with
    | none => simpa [trials, outcome, ht] using h
    | some _ => simpa [trials, outcome, ht] using h

/-- A trial for which the steps do not suffice comes down to one that has none. -/
theorem exists_undergoes_of_exhausted (h : m.outcome n goal r = .exhausted) :
    ∃ t, m.Undergoes ⟨n, goal, r⟩ t ∧ t.budget = 0 := by
  induction n generalizing goal r with
  | zero => exact ⟨_, .refl, rfl⟩
  | succ n ih =>
    obtain ⟨c, hc, hexhausted⟩ := exists_mem_trials_of_exhausted h
    obtain ⟨t, ht, hzero⟩ := ih hexhausted
    exact ⟨t, .head ⟨rfl, hc⟩ ht, hzero⟩

/-- **Matching goes back to where it began.** Whatever is called with an orderly run
leaves one in which everything that had happened is kept. If it fails, it leaves the
run as its goal says, and if it matches, no earlier than it began. In matching from a
name every call is made with an orderly run, and a call on which the steps are used up
is one of them. Matching all tokens, which fails where tokens are left over, leaves an
orderly run as well. -/
theorem frame_law (m : Matcher K α) (start : String) :
    (∀ n goal r, r.IsOrderly m.tokens →
      (m.outcome n goal r).Ensures
        (fun r' => goal.LeavesFailed r r' ∧ r.trace <:+ r'.trace ∧
          r'.IsOrderly m.tokens)
        fun _ r' => r.index ≤ r'.index ∧ r.trace <:+ r'.trace ∧
          r'.IsOrderly m.tokens) ∧
      (∀ n t, m.Undergoes ⟨n, .name start, .start⟩ t → t.run.IsOrderly m.tokens) ∧
      (∀ n, m.outcome n (.name start) .start = .exhausted →
        ∃ t, m.Undergoes ⟨n, .name start, .start⟩ t ∧ t.budget = 0) ∧
      (m.matchAll start).All (·.IsOrderly m.tokens) := by
  have hstart := Run.IsOrderly.start m.tokens
  refine ⟨fun n goal r hr => ?_, fun n t ht => ht.isOrderly hstart,
    fun n => exists_undergoes_of_exhausted,
    (m.movesTo_matchAll start).imp fun _ => hstart.movesTo⟩
  have hextends := (m.outcome_extends n goal r).imp fun _ => Extends.trace
  have hmoves := (m.outcome_movesTo n goal r).imp fun _ => hr.movesTo
  exact (m.outcome_leaves n goal r).and (hextends.and hmoves)

end Matcher

namespace Script

/-- What is tried after the sign of `1 +`, where there is no operand. -/
def onePlusOperand : Matcher.Trial ScriptKind Unit :=
  ⟨17, .expression sumHead 11,
    ⟨2, [.advance 1, .advance 0, .expect 0 .minus, .enter 0 "sum"]⟩⟩

theorem onePlus_frame_law :
    (Matcher.mk sums .ebnf onePlus).Undergoes ⟨20, .name "sum", .start⟩ onePlusOperand ∧
      onePlusOperand.run.IsOrderly onePlus ∧
      ∃ r, (Matcher.mk sums .ebnf onePlus).expression 17 sumHead 11
          onePlusOperand.run = .failed r ∧ r.index = 2 ∧ r.IsOrderly onePlus := by
  let m : Matcher ScriptKind Unit := ⟨sums, .ebnf, onePlus⟩
  have hname : m.Tries ⟨20, .name "sum", .start⟩
      ⟨19, .expression sumHead 0, Run.start.enter "sum"⟩ :=
    ⟨rfl, List.mem_cons_self⟩
  have hsum : m.Tries ⟨19, .expression sumHead 0, Run.start.enter "sum"⟩
      ⟨18, .climb sumHead 0 (numberTree "1"), _⟩ :=
    ⟨rfl, List.mem_cons_of_mem _ List.mem_cons_self⟩
  have h : m.Undergoes ⟨20, .name "sum", .start⟩ onePlusOperand :=
    ((Relation.ReflTransGen.single hname).tail hsum).tail ⟨rfl, List.mem_cons_self⟩
  obtain ⟨hkeeps, hundergoes, -⟩ := Matcher.frame_law m "sum"
  have horderly := hundergoes 20 onePlusOperand h
  obtain ⟨r, hr⟩ : ∃ r, m.expression 17 sumHead 11 onePlusOperand.run = .failed r :=
    ⟨_, rfl⟩
  have hleaves := hkeeps 17 (.expression sumHead 11) onePlusOperand.run horderly
  rw [Matcher.outcome, hr] at hleaves
  exact ⟨h, horderly, r, hr, hleaves.1, hleaves.2.2⟩

end Script

end Descent
