import Descent.Proofs.Grammar.Nullable
import Descent.Proofs.Matching.Frame

/-!
# A match that takes no token is of something nullable

Which names can match nothing is computed from the grammar alone, by passes
over its rules. The matcher agrees: a goal that it matches without taking a
token is nullable (`Attempt.isNullable_of_still`). So whatever is entered at
the index where a goal was begun is among the names that can come first in it.
-/

namespace Descent

variable {K α : Type}

namespace Goal

/-- **Whether a goal can be matched without a token**, given which names can. -/
@[simp] def isNullable (nullable : String → Bool) : Goal K α → Bool
  | name x => nullable x
  | rules _ rs => rs.any (·.isNullable nullable)
  | sequence clauses => Clause.allNullable nullable clauses
  | clause c => c.isNullable nullable
  | choice branches => Clause.anyNullable nullable branches
  | iterations _ | climb .. => true
  | expression head _ | operand head => head.isNullable nullable

/-- **The names that can come first in a match of a goal**, given which names
can match nothing. -/
@[simp] def leftmost (nullable : String → Bool) : Goal K α → List String
  | name x => [x]
  | rules _ rs => rs.flatMap (·.leftmost nullable)
  | sequence clauses => Clause.leftmostSeq nullable clauses
  | clause c => c.leftmost nullable
  | choice branches => Clause.leftmostAny nullable branches
  | iterations body => body.leftmost nullable
  | expression head _ | operand head =>
    head.rules.flatMap (·.leftmost nullable)
  | climb .. => []

end Goal

namespace Matcher

variable [DecidableEq K] [TokenKind K] {m : Matcher K α}

/-- **What is matched without a token is nullable.** -/
theorem Attempt.isNullable_of_still {goal : Goal K α} {r : Run K}
    {o : Outcome K (List (Tree K α))} (h : m.Attempt goal r o) :
    o.Ensures (fun _ => True) fun _ r' =>
      r'.index = r.index →
        goal.isNullable m.grammar.nullable.contains = true := by
  induction h with
  | undeclared | noRule | stuck | refused | noToken | plusNone | noBranch
  | noOperand => trivial
  | head hx _ _ ih | plain hx _ _ ih =>
    exact ih.imp (fun _ h => h) fun _ _ ih hi => Grammar.contains_nullable hx (ih hi)
  | rule _ ih =>
    intro hi
    have hr := ih hi
    simp only [Goal.isNullable] at hr
    simp [Rule.isNullable, hr]
  | nextRule _ _ _ ih =>
    refine ih.imp (fun _ h => h) fun _ _ ih hi => ?_
    have hrs := ih hi
    simp only [Goal.isNullable] at hrs
    rw [Goal.isNullable, List.any_cons, hrs, Bool.or_true]
  | done => simp [Clause.allNullable]
  | andThen h h' ih ih' =>
    -- if no token is taken in all, then none by the clause nor by the others
    refine Outcome.ensures_map.mpr ((ih'.and h'.extends).imp
      (fun _ _ => trivial) fun _ r'' hboth hi => ?_)
    obtain ⟨ih', hext'⟩ := hboth
    have hle := (Outcome.all_matched.mp h.extends).le
    have hle' := hext'.le
    have hc := ih (by omega)
    have hcs := ih' (by omega)
    simp only [Goal.isNullable] at hc hcs
    rw [Goal.isNullable, Clause.allNullable, hc, hcs, Bool.and_true]
  | token => simp
  | reference _ ih =>
    exact Outcome.ensures_map.mpr (by simpa [Clause.isNullable] using ih)
  | group _ _ ih | choice _ _ ih => simpa [Clause.isNullable] using ih
  | optional | optionalNone => simp [Clause.isNullable]
  | star _ _ _ =>
    exact Outcome.ensures_map.mpr (Outcome.ensures_of_forall (fun _ => trivial)
      fun _ _ _ => by simp [Clause.isNullable])
  | plus _ h h' ih ih' =>
    refine Outcome.ensures_map.mpr (Outcome.Ensures.imp h'.extends
      (fun _ _ => trivial) fun _ r'' hext' hi => ?_)
    have hle := (Outcome.all_matched.mp h.extends).le
    have hle' := hext'.le
    have hc := ih (by omega)
    simp only [Goal.isNullable] at hc
    rw [Goal.isNullable, Clause.isNullable, hc]
  | branch _ ih =>
    intro hi
    have hb := ih hi
    simp only [Goal.isNullable] at hb
    rw [Goal.isNullable, Clause.anyNullable, hb, Bool.true_or]
  | nextBranch _ _ _ ih =>
    refine ih.imp (fun _ h => h) fun _ _ ih hi => ?_
    have hbs := ih hi
    simp only [Goal.isNullable] at hbs
    rw [Goal.isNullable, Clause.anyNullable, hbs, Bool.or_true]
  | stop | still | noOperator | noRight => exact fun _ => rfl
  | again =>
    exact Outcome.ensures_map.mpr
      (Outcome.ensures_of_forall (fun _ => trivial) fun _ _ _ => rfl)
  | postfixed | infixed =>
    exact Outcome.ensures_of_forall (fun _ => trivial) fun _ _ _ => rfl
  | fromOperand h h' ih _ =>
    refine Outcome.Ensures.imp h'.extends (fun _ _ => trivial)
      fun _ r'' hext' hi => ?_
    have hle := (Outcome.all_matched.mp h.extends).le
    have hle' := hext'.le
    exact ih (by omega)
  | noPrefix _ _ ih | prefixNone _ _ _ _ ih =>
    refine ih.imp (fun _ h => h) fun _ _ ih hi => ih ?_
    simpa using hi
  | prefixed _ h _ =>
    -- the operator was taken
    intro hi
    have hle := (Outcome.all_matched.mp h.extends).le
    rw [Run.index_advance] at hle
    omega

end Matcher

end Descent
