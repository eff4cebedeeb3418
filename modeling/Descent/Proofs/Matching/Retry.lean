import Descent.Proofs.Matching.Frame

/-!
# What is wanted where it stands is taken

Suppose the token at some index is of some kind. A run that has wanted the kind
at that index has then taken the token there (`Settled`): whoever wants a kind
looks at the token first.

There is one exception, and it mends itself. After an operand, the kinds of all
operators that bind tightly enough are wanted, but only the first operator of
the token's kind is looked at, and it may bind too loosely. Then the expression
ends before the token, and the run is `Pending`. That can only happen to an
expression inside another one of the same head. The outer one looks at the same
token again, and the outermost one, of which nothing is asked, takes it.
-/

namespace Descent

variable {K α : Type}

namespace Run

variable {i : Nat} {k : K} {r r' : Run K}

/-- **A run is settled** at an index and a kind: if the kind was wanted there,
the token there was taken. -/
def Settled (i : Nat) (k : K) (r : Run K) : Prop :=
  .expect i k ∈ r.trace → .advance i ∈ r.trace

/-- **A run is pending**: it stands at the index, and the head has an operator of
the kind that follows operands. -/
def Pending [DecidableEq K] (i : Nat) (k : K) (head : NonTerminal K α)
    (r : Run K) : Prop :=
  r.index = i ∧ ∃ o, head.trailingOperator? k = some o

theorem settled_start : (start : Run K).Settled i k :=
  fun h => absurd h List.not_mem_nil

/-- Noting something that is not the kind at the index. -/
theorem Settled.log (h : r.Settled i k) {e : Event K} (he : e ≠ .expect i k) :
    (r.log e).Settled i k := by
  intro hmem
  rcases List.mem_cons.mp hmem with heq | hmem
  · exact absurd heq.symm he
  · exact List.mem_cons_of_mem e (h hmem)

theorem Settled.enter (h : r.Settled i k) (x : String) :
    (r.enter x).Settled i k :=
  h.log (by simp)

theorem Settled.reach (h : r.Settled i k) : r.reach.Settled i k := h.log (by simp)

theorem Settled.restore (h : r.Settled i k) (j : Nat) :
    (r.restore j).Settled i k :=
  Settled.log h (by simp)

theorem Settled.advance (h : r.Settled i k) : r.advance.Settled i k :=
  Settled.log h (by simp)

/-- A run that takes the token at the index is settled. -/
theorem settled_advance (h : r.index = i) : r.advance.Settled i k := by
  intro _
  rw [← h]
  exact List.mem_cons_self

theorem Settled.expectAll (h : r.Settled i k) {kinds : List K}
    (hk : r.index = i → k ∈ kinds → .advance i ∈ r.trace) :
    (r.expectAll kinds).Settled i k := by
  intro hmem
  rw [mem_trace_expectAll] at hmem ⊢
  rcases hmem with hmem | ⟨k', hk', heq⟩
  · exact .inl (h hmem)
  · obtain ⟨hi, rfl⟩ := Event.expect.injEq .. ▸ heq
    exact .inl (hk hi.symm hk')

end Run

namespace Goal

variable [DecidableEq K]

/-- What a goal asks of the run that it is begun with: a run that goes on from an
operand may be pending. -/
def Before (i : Nat) (k : K) (r : Run K) : Goal K α → Prop
  | climb head .. => r.Settled i k ∨ r.Pending i k head
  | _ => r.Settled i k

/-- What a match of a goal leaves: an operand may leave its run pending, an
expression only if something is asked of its operators. -/
def After (i : Nat) (k : K) (r : Run K) : Goal K α → Prop
  | operand head => r.Settled i k ∨ r.Pending i k head
  | expression head least | climb head least _ =>
    r.Settled i k ∨ 0 < least ∧ r.Pending i k head
  | _ => r.Settled i k

variable {i : Nat} {k : K} {r : Run K}

/-- An operator that is taken after an operand settles the run. -/
theorem Before.settled_advance {head : NonTerminal K α} {least : Nat}
    {left : Tree K α} (h : Before i k r (.climb head least left)) :
    r.advance.Settled i k := by
  rcases h with hsettled | hpending
  · exact hsettled.advance
  · exact Run.settled_advance hpending.1

end Goal

namespace Matcher

variable [DecidableEq K] {m : Matcher K α} {i : Nat} {k : K} {r : Run K}

/-- Before an operand, what is wanted is looked at. -/
theorem not_mem_leadingKinds (hk : (m.tokens.get? i).map (·.kind) = some k)
    {head : NonTerminal K α} (h : m.leading? head r = none) (hi : r.index = i) :
    k ∉ head.leadingKinds := by
  intro hmem
  obtain ⟨t, ht, rfl⟩ := Option.map_eq_some_iff.mp hk
  obtain ⟨o, ho⟩ := NonTerminal.mem_leadingKinds_iff.mp hmem
  rw [leading?_eq_some_iff.mpr ⟨by rw [hi]; exact ht, ho⟩] at h
  cases h

/-- After an operand, a pending run goes on, unless something is asked of the
operator. -/
theorem least_pos_of_pending (hk : (m.tokens.get? i).map (·.kind) = some k)
    {head : NonTerminal K α} {least : Nat} (h : m.trailing? head least r = none)
    (hp : r.Pending i k head) : 0 < least := by
  obtain ⟨t, ht, rfl⟩ := Option.map_eq_some_iff.mp hk
  obtain ⟨hi, o, ho⟩ := hp
  refine Nat.pos_of_ne_zero fun hzero => ?_
  rw [trailing?_eq_some_iff.mpr
    ⟨by rw [hi]; exact ht, ho, by rw [hzero]; exact Nat.zero_le _⟩] at h
  cases h

variable [TokenKind K]

/-- **An attempt leaves its run settled**, or pending for the expression
around it. -/
theorem Attempt.settled (hk : (m.tokens.get? i).map (·.kind) = some k)
    {goal : Goal K α} {o : Outcome K (List (Tree K α))}
    (h : m.Attempt goal r o) (hr : goal.Before i k r) :
    o.Ensures (Run.Settled i k) fun _ r' => goal.After i k r' := by
  induction h with
  | undeclared =>
    exact (Run.Settled.enter hr _).reach
  | head _ _ _ ih =>
    -- an expression that asks nothing of its operators leaves none pending
    refine (ih (Run.Settled.enter hr _)).imp (fun _ h => h) fun _ _ h => ?_
    exact h.resolve_right fun h => absurd h.1 (Nat.lt_irrefl 0)
  | plain _ _ _ ih => exact ih (Run.Settled.enter hr _)
  | noRule | done | noBranch => exact hr
  | rule _ ih => exact ih hr
  | nextRule _ _ ih ih' | nextBranch _ _ ih ih' => exact ih' ((ih hr).restore _)
  | stuck _ ih | optional _ _ ih | plusNone _ _ ih | branch _ ih => exact ih hr
  | andThen _ _ ih ih' | plus _ _ _ ih ih' | again _ _ _ ih ih' =>
    exact Outcome.ensures_map.mpr (ih' (ih hr))
  | refused => exact Run.Settled.reach hr
  | token => exact Run.Settled.advance hr
  | @noToken k' _ r hne =>
    refine Run.Settled.log hr fun heq => ?_
    obtain ⟨hi, rfl⟩ := Event.expect.injEq .. ▸ heq
    obtain ⟨t, ht, hkind⟩ := Option.map_eq_some_iff.mp hk
    exact hne t (by rw [hi]; exact ht) hkind
  | reference _ ih | star _ _ ih => exact Outcome.ensures_map.mpr (ih hr)
  | group _ _ ih | choice _ _ ih => exact ih hr
  | optionalNone _ _ ih | stop _ ih | still _ _ ih => exact (ih hr).restore _
  | noOperand _ ih => exact ih hr
  | fromOperand _ _ ih ih' => exact ih' (ih hr)
  | @noOperator n least left r ht =>
    -- `k` may be among the kinds listed here although its token was not taken,
    -- but then the operator binds too loosely, and the caller tries it again
    by_cases hp : r.Pending i k n
    · have hpos := least_pos_of_pending hk ht hp
      refine .inr ⟨hpos, ?_, hp.2⟩
      rw [Run.index_expectAll]
      exact hp.1
    · refine .inl (Run.Settled.expectAll (hr.resolve_right hp) fun hi hmem => ?_)
      exact absurd ⟨hi, NonTerminal.exists_of_mem_trailingKinds hmem⟩ hp
  | postfixed _ _ _ ih => exact ih (.inl hr.settled_advance)
  | noRight _ _ _ ih =>
    exact .inl (Run.Settled.restore (ih hr.settled_advance) _)
  | infixed _ _ _ _ ih ih' =>
    exact ih' ((ih hr.settled_advance).imp_right And.right)
  | noPrefix ht _ ih =>
    refine (ih (Run.Settled.expectAll hr fun hi hmem => ?_)).imp
      (fun _ h => h) fun _ _ => .inl
    exact absurd hmem (not_mem_leadingKinds hk ht hi)
  | prefixed _ _ ih => exact (ih (Run.Settled.advance hr)).imp_right And.right
  | @prefixNone n r r' t op o ht h _ ih ih' =>
    refine (ih' (Run.Settled.expectAll ((ih (Run.Settled.advance hr)).restore _)
      fun hi _ => ?_)).imp (fun _ h => h) fun _ _ => .inl
    -- the token was taken before the operand was found missing
    have hmem := (Outcome.all_failed.mp h.extends).trace.subset List.mem_cons_self
    rw [Run.index_restore] at hi
    rw [hi] at hmem
    exact List.mem_cons_of_mem _ hmem

end Matcher

end Descent
