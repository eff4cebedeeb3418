import Descent.Proofs.Matching.Attempt
import Mathlib.Logic.Relation

/-!
# Where an attempt can leave its run

However an attempt ends, the run it leaves **extends** the run it was begun
with (`Attempt.extends`): everything that has happened stays in the trace, the
run stands at the same index or further on and not past the last token, and
every token between the two indices has been consumed.

It gets there in single moves (`Attempt.movesTo`): it takes a token that is there,
goes back, or notes something where it stands. What every move keeps is therefore
kept by every attempt. So whatever happens happens in the token list
(`Run.Inside.movesTo`).

`Outcome.Ensures` is how such facts are stated: one property for the run of a
failure, another for a match and its run. A step budget that was too small says
nothing, so it ensures everything.
-/

namespace Descent

variable {K α β γ : Type}

namespace Outcome

/-- **What an outcome ensures**: `F` of the run of a failure, `M` of a match and
its run. -/
def Ensures (F : Run K → Prop) (M : β → Run K → Prop) : Outcome K β → Prop
  | exhausted => True
  | failed r => F r
  | matched x r => M x r

/-- What an outcome ensures of its run, however it ends. -/
def All (P : Run K → Prop) (o : Outcome K β) : Prop := o.Ensures P fun _ => P

variable {F F' P Q : Run K → Prop} {M M' : β → Run K → Prop} {o : Outcome K β}

@[simp] theorem ensures_exhausted : (exhausted : Outcome K β).Ensures F M := trivial

@[simp] theorem ensures_failed {r : Run K} :
    (failed r : Outcome K β).Ensures F M ↔ F r := Iff.rfl

@[simp] theorem ensures_matched {x : β} {r : Run K} :
    (matched x r).Ensures F M ↔ M x r := Iff.rfl

@[simp] theorem all_exhausted : (exhausted : Outcome K β).All P := trivial

@[simp] theorem all_failed {r : Run K} : (failed r : Outcome K β).All P ↔ P r :=
  Iff.rfl

@[simp] theorem all_matched {x : β} {r : Run K} : (matched x r).All P ↔ P r :=
  Iff.rfl

@[simp] theorem ensures_map {f : β → γ} {M : γ → Run K → Prop} :
    (o.map f).Ensures F M ↔ o.Ensures F fun x => M (f x) := by
  cases o <;> rfl

@[simp] theorem all_map {f : β → γ} : (o.map f).All P ↔ o.All P := ensures_map

theorem ensures_of_forall (hF : ∀ r, F r) (hM : ∀ x r, M x r) :
    o.Ensures F M := by
  cases o with
  | exhausted => trivial
  | failed r => exact hF r
  | matched x r => exact hM x r

theorem Ensures.imp (h : o.Ensures F M) (hF : ∀ r, F r → F' r)
    (hM : ∀ x r, M x r → M' x r) : o.Ensures F' M' := by
  cases o with
  | exhausted => trivial
  | failed r => exact hF r h
  | matched x r => exact hM x r h

theorem Ensures.and (h : o.Ensures F M) (h' : o.Ensures F' M') :
    o.Ensures (fun r => F r ∧ F' r) fun x r => M x r ∧ M' x r := by
  cases o with
  | exhausted => trivial
  | failed r => exact ⟨h, h'⟩
  | matched x r => exact ⟨h, h'⟩

theorem All.imp (h : o.All P) (hP : ∀ r, P r → Q r) : o.All Q :=
  Ensures.imp h hP fun _ => hP

end Outcome

namespace Run

/-- What is noted of some kinds is one expectation for each. -/
theorem mem_trace_expectAll {r : Run K} {kinds : List K} {e : Event K} :
    e ∈ (r.expectAll kinds).trace ↔
      e ∈ r.trace ∨ ∃ k ∈ kinds, e = .expect r.index k := by
  unfold expectAll
  induction kinds generalizing r with
  | nil => simp
  | cons k ks ih =>
    simp only [List.foldl_cons, ih, expect, log, List.mem_cons, exists_eq_or_imp]
    rw [or_assoc, or_left_comm]

end Run

namespace Matcher

variable {m : Matcher K α}

/-- **A run that goes on from another**: the trace only grows, the index does
not fall and stays in the token list, and every token between the two indices
was consumed. -/
structure Extends (m : Matcher K α) (r r' : Run K) : Prop where
  /-- What has happened stays in the trace. -/
  trace : r.trace <:+ r'.trace
  /-- The index does not fall. -/
  le : r.index ≤ r'.index
  /-- The index does not pass the last token. -/
  bound : r'.index ≤ max r.index m.tokens.length
  /-- Every token on the way was consumed. -/
  consumed : ∀ j, r.index ≤ j → j < r'.index → Event.advance j ∈ r'.trace

namespace Extends

variable {r r' r'' : Run K}

theorem refl (m : Matcher K α) (r : Run K) : m.Extends r r :=
  ⟨List.suffix_refl _, Nat.le_refl _, Nat.le_max_left _ _, fun _ h h' => by omega⟩

theorem trans (h : m.Extends r r') (h' : m.Extends r' r'') : m.Extends r r'' where
  trace := h.trace.trans h'.trace
  le := Nat.le_trans h.le h'.le
  bound := by
    have := h.bound
    have := h'.bound
    omega
  consumed j hj hj' := by
    by_cases hlt : j < r'.index
    · exact h'.trace.subset (h.consumed j hj hlt)
    · exact h'.consumed j (Nat.le_of_not_lt hlt) hj'

/-- Noting an event moves nothing. -/
theorem log (m : Matcher K α) (r : Run K) (e : Event K) : m.Extends r (r.log e) :=
  ⟨List.suffix_cons _ _, Nat.le_refl _, Nat.le_max_left _ _, fun _ h h' => by
    rw [Run.index_log] at h'
    omega⟩

theorem expectAll (m : Matcher K α) (r : Run K) (kinds : List K) :
    m.Extends r (r.expectAll kinds) := by
  unfold Run.expectAll
  induction kinds generalizing r with
  | nil => exact refl m r
  | cons k ks ih => exact (log m r _).trans (ih (r.expect k))

/-- Consuming a token moves over it. -/
theorem advance {t : Token K} (h : m.tokens.get? r.index = some t) :
    m.Extends r r.advance where
  trace := List.suffix_cons _ _
  le := Nat.le_succ _
  bound := by
    have := TokenList.lt_length_of_get? h
    rw [Run.index_advance]
    omega
  consumed j hj hj' := by
    rw [Run.index_advance] at hj'
    have : j = r.index := by omega
    rw [this]
    exact List.mem_cons_self

/-- Going back to where a run came from goes on from there. -/
theorem restore (h : m.Extends r r') : m.Extends r (r'.restore r.index) where
  trace := h.trace.trans (List.suffix_cons _ _)
  le := Nat.le_refl _
  bound := Nat.le_max_left _ _
  consumed j hj hj' := by
    rw [Run.index_restore] at hj'
    omega

end Extends

variable [DecidableEq K]

/-- The token found before an operand is there. -/
theorem Extends.advance_leading {head : NonTerminal K α} {r : Run K}
    {t : Token K} {op : Operator K α} (h : m.leading? head r = some (t, op)) :
    m.Extends r r.advance :=
  .advance (leading?_eq_some_iff.mp h).1

/-- The token found after an operand is there. -/
theorem Extends.advance_trailing {head : NonTerminal K α} {least : Nat}
    {r : Run K} {t : Token K} {op : Operator K α}
    (h : m.trailing? head least r = some (t, op)) : m.Extends r r.advance :=
  .advance (trailing?_eq_some_iff.mp h).1

variable [TokenKind K]

/-- **However an attempt ends, it goes on from its run.** -/
theorem Attempt.extends {goal : Goal K α} {r : Run K}
    {o : Outcome K (List (Tree K α))} (h : m.Attempt goal r o) :
    o.All (m.Extends r) := by
  induction h with
  | undeclared => exact (Extends.log m _ _).trans (.log m _ _)
  | head _ _ _ ih | plain _ _ _ ih =>
    exact ih.imp fun _ => (Extends.log m _ _).trans
  | noRule | done | noBranch => exact .refl m _
  | rule _ ih | stuck _ ih | optional _ _ ih | plusNone _ _ ih | branch _ ih
  | noOperand _ ih => exact ih
  | nextRule _ _ ih ih' | nextBranch _ _ ih ih' =>
    exact ih'.imp fun _ => (Extends.restore ih).trans
  | andThen _ _ ih ih' | plus _ _ _ ih ih' | again _ _ _ ih ih' =>
    exact Outcome.all_map.mpr (ih'.imp fun _ => Extends.trans ih)
  | refused | noToken => exact .log m _ _
  | token ht => exact .advance ht
  | reference _ ih | star _ _ ih => exact Outcome.all_map.mpr ih
  | group _ _ ih | choice _ _ ih => exact ih
  | optionalNone _ _ ih | stop _ ih | still _ _ ih => exact Extends.restore ih
  | fromOperand _ _ ih ih' => exact ih'.imp fun _ => Extends.trans ih
  | noOperator => exact .expectAll m _ _
  | postfixed ht _ _ ih =>
    exact ih.imp fun _ => (Extends.advance_trailing ht).trans
  | noRight ht _ _ ih => exact ((Extends.advance_trailing ht).trans ih).restore
  | infixed ht _ _ _ ih ih' =>
    exact ih'.imp fun _ => ((Extends.advance_trailing ht).trans ih).trans
  | noPrefix _ _ ih => exact ih.imp fun _ => (Extends.expectAll m _ _).trans
  | prefixed ht _ ih => exact (Extends.advance_leading ht).trans ih
  | prefixNone ht _ _ ih ih' =>
    have hback := ((Extends.advance_leading ht).trans ih).restore
    exact ih'.imp fun _ => (hback.trans (.expectAll m _ _)).trans

/-- What holds of every attempt holds of what the functions answer. -/
theorem ensures_outcome {goal : Goal K α} {r : Run K} {F : Run K → Prop}
    {M : List (Tree K α) → Run K → Prop}
    (h : ∀ o, m.Attempt goal r o → o.Ensures F M) (n : Nat) :
    (m.outcome n goal r).Ensures F M := by
  cases ho : m.outcome n goal r with
  | exhausted => trivial
  | failed r' => exact h _ (attempt_of_failed ho)
  | matched ts r' => exact h _ (attempt_of_matched ho)

theorem all_outcome {goal : Goal K α} {r : Run K} {P : Run K → Prop}
    (h : ∀ o, m.Attempt goal r o → o.All P) (n : Nat) :
    (m.outcome n goal r).All P :=
  ensures_outcome h n

/-- Whatever a goal leaves goes on from where it was begun. -/
theorem outcome_extends (m : Matcher K α) (n : Nat) (goal : Goal K α)
    (r : Run K) : (m.outcome n goal r).All (m.Extends r) :=
  all_outcome (fun _ hatt => hatt.extends) n

end Matcher

/-! ## What happens on the way -/

namespace Run

open Relation (ReflTransGen)

/-- **A move of a run**: something is noted where it stands, the token there is
taken, or it goes back. -/
inductive Moves (tokens : TokenList K) : Run K → Run K → Prop
  /-- A non-terminal is entered. -/
  | enter (r : Run K) (x : String) : Moves tokens r (r.enter x)
  /-- Nothing can be matched here. -/
  | reach (r : Run K) : Moves tokens r r.reach
  /-- A token of a kind is wanted here. -/
  | expect (r : Run K) (k : K) : Moves tokens r (r.expect k)
  /-- The token that stands here is taken. -/
  | advance {r : Run K} {t : Token K} :
      tokens.get? r.index = some t → Moves tokens r r.advance
  /-- The run goes back. -/
  | restore {r : Run K} {i : Nat} : i ≤ r.index → Moves tokens r (r.restore i)

/-- **One run comes from another** in any number of moves. -/
def MovesTo (tokens : TokenList K) : Run K → Run K → Prop :=
  ReflTransGen (Moves tokens)

namespace MovesTo

variable {tokens : TokenList K} {r r' r'' : Run K}

theorem refl (r : Run K) : MovesTo tokens r r := ReflTransGen.refl

theorem trans (h : MovesTo tokens r r') (h' : MovesTo tokens r' r'') :
    MovesTo tokens r r'' :=
  ReflTransGen.trans h h'

theorem of_moves (h : Moves tokens r r') : MovesTo tokens r r' := ReflTransGen.single h

theorem expectAll (tokens : TokenList K) (r : Run K) (kinds : List K) :
    MovesTo tokens r (r.expectAll kinds) := by
  unfold Run.expectAll
  induction kinds generalizing r with
  | nil => exact refl r
  | cons k ks ih => exact (of_moves (.expect r k)).trans (ih (r.expect k))

/-- A run goes back to where it came from. -/
theorem restore (h : MovesTo tokens r r') (hle : r.index ≤ r'.index) :
    MovesTo tokens r (r'.restore r.index) :=
  h.trans (of_moves (.restore hle))

end MovesTo

end Run

namespace Matcher

variable {m : Matcher K α} [DecidableEq K]

/-- The token found before an operand is taken. -/
theorem movesTo_advance_leading {head : NonTerminal K α} {r : Run K} {t : Token K}
    {op : Operator K α} (h : m.leading? head r = some (t, op)) :
    r.MovesTo m.tokens r.advance :=
  .of_moves (.advance (leading?_eq_some_iff.mp h).1)

/-- The token found after an operand is taken. -/
theorem movesTo_advance_trailing {head : NonTerminal K α} {least : Nat} {r : Run K}
    {t : Token K} {op : Operator K α} (h : m.trailing? head least r = some (t, op)) :
    r.MovesTo m.tokens r.advance :=
  .of_moves (.advance (trailing?_eq_some_iff.mp h).1)

variable [TokenKind K]

/-- **Every attempt is made in moves.** -/
theorem Attempt.movesTo {goal : Goal K α} {r : Run K}
    {o : Outcome K (List (Tree K α))} (h : m.Attempt goal r o) :
    o.All (r.MovesTo m.tokens) := by
  induction h with
  | undeclared =>
    exact (Run.MovesTo.of_moves (.enter _ _)).trans (.of_moves (.reach _))
  | head _ _ _ ih | plain _ _ _ ih =>
    exact ih.imp fun _ => (Run.MovesTo.of_moves (.enter _ _)).trans
  | noRule | done | noBranch => exact .refl _
  | rule _ ih | stuck _ ih | optional _ _ ih | plusNone _ _ ih | branch _ ih
  | noOperand _ ih | group _ _ ih | choice _ _ ih => exact ih
  | nextRule h _ ih ih' | nextBranch h _ ih ih' =>
    exact ih'.imp fun _ => (Run.MovesTo.restore ih h.extends.le).trans
  | andThen _ _ ih ih' | plus _ _ _ ih ih' | again _ _ _ ih ih' =>
    exact Outcome.all_map.mpr (ih'.imp fun _ => Run.MovesTo.trans ih)
  | refused => exact .of_moves (.reach _)
  | token ht => exact .of_moves (.advance ht)
  | noToken => exact .of_moves (.expect _ _)
  | reference _ ih | star _ _ ih => exact Outcome.all_map.mpr ih
  | optionalNone _ h ih | stop h ih | still h _ ih =>
    exact Run.MovesTo.restore ih h.extends.le
  | fromOperand _ _ ih ih' => exact ih'.imp fun _ => Run.MovesTo.trans ih
  | noOperator => exact .expectAll _ _ _
  | postfixed ht _ _ ih =>
    exact ih.imp fun _ => (movesTo_advance_trailing ht).trans
  | noRight ht _ h ih =>
    have hle := ((Extends.advance_trailing ht).trans h.extends).le
    exact ((movesTo_advance_trailing ht).trans ih).restore hle
  | infixed ht _ _ _ ih ih' =>
    exact ih'.imp fun _ => ((movesTo_advance_trailing ht).trans ih).trans
  | noPrefix _ _ ih => exact ih.imp fun _ => (Run.MovesTo.expectAll _ _ _).trans
  | prefixed ht _ ih => exact (movesTo_advance_leading ht).trans ih
  | prefixNone ht h _ ih ih' =>
    have hle := ((Extends.advance_leading ht).trans h.extends).le
    have hback := ((movesTo_advance_leading ht).trans ih).restore hle
    exact ih'.imp fun _ => (hback.trans (.expectAll _ _ _)).trans

end Matcher

/-! ## What happens in the token list -/

/-- **An event happens in a list** of some tokens: a token taken is one of them,
and a run goes back, and not past the last. -/
def Event.Inside (length : Nat) : Event K → Prop
  | advance i => i < length
  | restore source target => target ≤ source ∧ source ≤ length
  | expect i _ | reach i | enter i _ => i ≤ length

/-- **A run stays in a list** of some tokens, and all that has happened in it
does. -/
structure Run.Inside (length : Nat) (r : Run K) : Prop where
  /-- The run stands at a token or after the last one. -/
  index_le : r.index ≤ length
  /-- All events happen in the list. -/
  events : ∀ e ∈ r.trace, e.Inside length

namespace Run.Inside

variable {n : Nat} {r r' : Run K}

theorem start (n : Nat) : (Run.start : Run K).Inside n :=
  ⟨Nat.zero_le n, fun _ h => absurd h List.not_mem_nil⟩

theorem log (h : r.Inside n) {e : Event K} (he : e.Inside n) :
    (r.log e).Inside n :=
  ⟨h.index_le, List.forall_mem_cons.mpr ⟨he, h.events⟩⟩

/-- A move in a list stays in it. -/
theorem moves {tokens : TokenList K} (h : r.Inside tokens.length)
    (hr : r.Moves tokens r') : r'.Inside tokens.length := by
  cases hr with
  | enter | reach | expect => exact h.log h.index_le
  | advance ht =>
    have hlt := TokenList.lt_length_of_get? ht
    exact ⟨hlt, List.forall_mem_cons.mpr ⟨hlt, h.events⟩⟩
  | restore hle =>
    exact ⟨Nat.le_trans hle h.index_le,
      List.forall_mem_cons.mpr ⟨⟨hle, h.index_le⟩, h.events⟩⟩

/-- **Whatever a run comes to stays in the list.** -/
theorem movesTo {tokens : TokenList K} (h : r.Inside tokens.length)
    (hr : r.MovesTo tokens r') : r'.Inside tokens.length := by
  induction hr with
  | refl => exact h
  | tail _ hmove ih => exact ih.moves hmove

end Run.Inside

end Descent
