import Descent.Proofs.Grammar.Nullable
import Mathlib.Logic.Relation

/-!
# The forms that a grammar derives

Read as a context-free grammar, a grammar derives **forms**, which are lists of
clauses. One clause of a form is replaced at a time (`Grammar.Rewrites`): a
reference by the clauses of one of its rules, a group by its members, a choice by
one of its branches, an option by its body or nothing, and a repetition by its
body and itself or nothing. A name that is not declared is replaced by nothing at
all, and operators are no rules.

A form **vanishes** if nothing is derived from it in the end, and it **exposes** a
name if what is derived from it begins with the name, apart from what vanishes.
The two are what nullable and leftmost names are computed for, and the computed
sets agree with them: a form is nullable exactly if it vanishes
(`Grammar.vanishes_iff`), and what is leftmost in a form is what it exposes
without replacing a reference that does not vanish
(`Grammar.exposes_of_mem_leftmostSeq`, `Grammar.exists_leftmost_of_exposes`).
-/

namespace Descent

variable {K α : Type}

open Relation (ReflTransGen TransGen)

namespace Clause

variable {nullable : String → Bool} {cs ds : List (Clause K)} {x : String}

/-- **What is leftmost in two sequences**: what is in the first and, if the first
can match nothing, what is in the second. -/
theorem mem_leftmostSeq_append :
    x ∈ leftmostSeq nullable (cs ++ ds) ↔
      x ∈ leftmostSeq nullable cs ∨
        allNullable nullable cs = true ∧ x ∈ leftmostSeq nullable ds := by
  rw [leftmostSeq_append, List.mem_append]
  cases allNullable nullable cs <;> simp

end Clause

namespace Grammar

/-- **What may stand for a clause** in a form. -/
inductive Expands (g : Grammar K α) : Clause K → List (Clause K) → Prop
  /-- The clauses of one of its rules stand for a name. -/
  | reference {x : String} {d : Bool} {n : NonTerminal K α} {rule : Rule K α} :
      g.get? x = some n → rule ∈ n.rules →
      Expands g (.reference x d) rule.clauses
  /-- Its members stand for a group. -/
  | group {cs : List (Clause K)} : Expands g (.group cs) cs
  /-- One of its branches stands for a choice. -/
  | choice {bs : List (Clause K)} {b : Clause K} :
      b ∈ bs → Expands g (.choice bs) [b]
  /-- Its body stands for an option. -/
  | optional {b : Clause K} : Expands g (.optional b) [b]
  /-- Nothing stands for an option. -/
  | optionalNone {b : Clause K} : Expands g (.optional b) []
  /-- Its body and the repetition itself stand for a repetition. -/
  | star {b : Clause K} : Expands g (.star b) [b, .star b]
  /-- Nothing stands for a repetition. -/
  | starNone {b : Clause K} : Expands g (.star b) []
  /-- Its body and a repetition that needs none stand for a repetition that needs
  one. -/
  | plus {b : Clause K} : Expands g (.plus b) [b, .star b]

/-- **One clause of a form is replaced** by what may stand for it. -/
inductive Rewrites (g : Grammar K α) : List (Clause K) → List (Clause K) → Prop
  /-- What stands around the clause stays. -/
  | within {c : Clause K} {cs : List (Clause K)}
      (before after : List (Clause K)) :
      g.Expands c cs → Rewrites g (before ++ c :: after) (before ++ cs ++ after)

/-- **A form vanishes** if the empty form is derived from it. -/
def Vanishes (g : Grammar K α) (form : List (Clause K)) : Prop :=
  ReflTransGen g.Rewrites form []

/-- **A form exposes a name** if a form is derived from it in which the name is
first, apart from what vanishes. -/
def Exposes (g : Grammar K α) (form : List (Clause K)) (x : String) : Prop :=
  ∃ before d after,
    ReflTransGen g.Rewrites form (before ++ .reference x d :: after) ∧
      g.Vanishes before

variable {g : Grammar K α} {form form' cs ds : List (Clause K)} {c : Clause K}
  {x y : String}

/-! ## Derivations in a context -/

/-- What is derived from a form is derived from it between other clauses. -/
theorem derives_within (before after : List (Clause K))
    (h : ReflTransGen g.Rewrites form form') :
    ReflTransGen g.Rewrites (before ++ form ++ after)
      (before ++ form' ++ after) := by
  refine ReflTransGen.lift (fun form => before ++ form ++ after) ?_ _ _ h
  rintro _ _ ⟨before', after', hc⟩
  have hstep := Rewrites.within (before ++ before') (after' ++ after) hc
  simpa [Function.onFun] using hstep

theorem Expands.derives (h : g.Expands c cs) :
    ReflTransGen g.Rewrites [c] cs := by
  simpa using ReflTransGen.single (Rewrites.within [] [] h)

theorem Vanishes.append (hcs : g.Vanishes cs) (hds : g.Vanishes ds) :
    g.Vanishes (cs ++ ds) := by
  have hleft := derives_within [] ds hcs
  exact ReflTransGen.trans (by simpa using hleft) hds

theorem Expands.vanishes (h : g.Expands c cs) (hcs : g.Vanishes cs) :
    g.Vanishes [c] :=
  h.derives.trans hcs

/-- A form exposes what is exposed by a form derived from it. -/
theorem Exposes.of_derives (h : ReflTransGen g.Rewrites form form')
    (hx : g.Exposes form' x) : g.Exposes form x := by
  obtain ⟨before, d, after, hform', hbefore⟩ := hx
  exact ⟨before, d, after, h.trans hform', hbefore⟩

theorem Expands.exposes (h : g.Expands c cs) (hx : g.Exposes cs x) :
    g.Exposes [c] x :=
  hx.of_derives h.derives

/-- What a form exposes is exposed whatever follows. -/
theorem Exposes.append_right (h : g.Exposes cs x) (ds : List (Clause K)) :
    g.Exposes (cs ++ ds) x := by
  obtain ⟨before, d, after, hform, hbefore⟩ := h
  have hmore := derives_within [] ds hform
  exact ⟨before, d, after ++ ds, by simpa using hmore, hbefore⟩

/-- What a form exposes is exposed after what vanishes. -/
theorem Exposes.append_left (hcs : g.Vanishes cs) (h : g.Exposes ds x) :
    g.Exposes (cs ++ ds) x := by
  obtain ⟨before, d, after, hform, hbefore⟩ := h
  have hmore := derives_within cs [] hform
  exact ⟨cs ++ before, d, after, by simpa using hmore, hcs.append hbefore⟩

theorem exposes_reference (x : String) (d : Bool) :
    g.Exposes [.reference x d] x :=
  ⟨[], d, [], .refl, .refl⟩

/-! ## What is nullable vanishes -/

mutual

/-- A clause that is nullable vanishes, if the names do by which it is. -/
theorem vanishes_of_isNullable {nullable : String → Bool}
    (h : ∀ x d, nullable x = true → g.Vanishes [.reference x d]) :
    (c : Clause K) → c.isNullable nullable = true → g.Vanishes [c]
  | .reference x d, hc => h x d hc
  | .group cs, hc => Expands.group.vanishes (vanishes_of_allNullable h cs hc)
  | .choice bs, hc => by
    obtain ⟨b, hb, hvanishes⟩ := exists_vanishes_of_anyNullable h bs hc
    exact (Expands.choice hb).vanishes hvanishes
  | .optional _, _ => Expands.optionalNone.derives
  | .star _, _ => Expands.starNone.derives
  | .plus b, hc =>
    Expands.plus.vanishes
      ((vanishes_of_isNullable h b hc).append Expands.starNone.derives)

/-- Clauses that are all nullable vanish. -/
theorem vanishes_of_allNullable {nullable : String → Bool}
    (h : ∀ x d, nullable x = true → g.Vanishes [.reference x d]) :
    (cs : List (Clause K)) → Clause.allNullable nullable cs = true →
      g.Vanishes cs
  | [], _ => .refl
  | c :: cs, hcs => by
    rw [Clause.allNullable, Bool.and_eq_true] at hcs
    exact (vanishes_of_isNullable h c hcs.1).append
      (vanishes_of_allNullable h cs hcs.2)

/-- Of branches one of which is nullable, one vanishes. -/
theorem exists_vanishes_of_anyNullable {nullable : String → Bool}
    (h : ∀ x d, nullable x = true → g.Vanishes [.reference x d]) :
    (bs : List (Clause K)) → Clause.anyNullable nullable bs = true →
      ∃ b ∈ bs, g.Vanishes [b]
  | b :: bs, hbs => by
    rw [Clause.anyNullable, Bool.or_eq_true] at hbs
    rcases hbs with hb | hbs
    · exact ⟨b, List.mem_cons_self, vanishes_of_isNullable h b hb⟩
    · obtain ⟨b', hb', hvanishes⟩ := exists_vanishes_of_anyNullable h bs hbs
      exact ⟨b', List.mem_cons_of_mem b hb', hvanishes⟩

end

/-- **A nullable name vanishes.** -/
theorem vanishes_reference (d : Bool) (h : g.nullable.contains x = true) :
    g.Vanishes [.reference x d] := by
  classical
  have key : ∀ x ∈ g.nullable, ∀ d, g.Vanishes [.reference x d] := fun x hx =>
    nullable_induction (P := fun x => ∀ d, g.Vanishes [.reference x d])
      (fun n hn hnull d => ?_) hx
  · exact key x (List.contains_iff_mem.mp h) d
  · obtain ⟨rule, hrule, hr⟩ := List.any_eq_true.mp hnull
    refine (Expands.reference (get?_of_mem hn) hrule).vanishes
      (vanishes_of_allNullable (fun x d hx => ?_) rule.clauses hr)
    exact of_decide_eq_true hx d

/-- What a nullable form stands for is nullable. -/
theorem Expands.isNullable (h : g.Expands c cs)
    (hcs : Clause.allNullable g.nullable.contains cs = true) :
    c.isNullable g.nullable.contains = true := by
  cases h with
  | reference hx hrule =>
    exact contains_nullable hx (List.any_eq_true.mpr ⟨_, hrule, hcs⟩)
  | group => exact hcs
  | choice hb =>
    rw [Clause.allNullable_eq_all, List.all_cons, Bool.and_eq_true] at hcs
    rw [Clause.isNullable, Clause.anyNullable_eq_any]
    exact List.any_eq_true.mpr ⟨_, hb, hcs.1⟩
  | optional | optionalNone | star | starNone => rfl
  | plus =>
    rw [Clause.allNullable, Bool.and_eq_true] at hcs
    exact hcs.1

/-- **A form is nullable exactly if it vanishes.** -/
theorem vanishes_iff :
    g.Vanishes form ↔ Clause.allNullable g.nullable.contains form = true := by
  constructor
  · intro h
    induction h using ReflTransGen.head_induction_on with
    | refl => rfl
    | head hstep _ ih =>
      obtain ⟨before, after, hc⟩ := hstep
      rw [Clause.allNullable_append, Clause.allNullable_append, Bool.and_eq_true,
        Bool.and_eq_true] at ih
      rw [Clause.allNullable_append, Clause.allNullable, ih.1.1, ih.2,
        hc.isNullable ih.1.2]
      rfl
  · exact vanishes_of_allNullable (fun _ d => vanishes_reference d) form

/-! ## What is leftmost is exposed -/

mutual

/-- What is leftmost in a clause is exposed by it. -/
theorem exposes_of_mem_leftmost :
    (c : Clause K) → x ∈ c.leftmost g.nullable.contains → g.Exposes [c] x
  | .reference y d, h => by
    rw [List.mem_singleton.mp h]
    exact exposes_reference y d
  | .group cs, h => Expands.group.exposes (exposes_of_mem_leftmostSeq cs h)
  | .choice bs, h => by
    obtain ⟨b, hb, hx⟩ := exists_exposes_of_mem_leftmostAny bs h
    exact (Expands.choice hb).exposes hx
  | .optional b, h => Expands.optional.exposes (exposes_of_mem_leftmost b h)
  | .star b, h =>
    Expands.star.exposes ((exposes_of_mem_leftmost b h).append_right [.star b])
  | .plus b, h =>
    Expands.plus.exposes ((exposes_of_mem_leftmost b h).append_right [.star b])

/-- **What is leftmost in a form is exposed by it.** -/
theorem exposes_of_mem_leftmostSeq :
    (cs : List (Clause K)) → x ∈ Clause.leftmostSeq g.nullable.contains cs →
      g.Exposes cs x
  | c :: cs, h => by
    rw [Clause.leftmostSeq, List.mem_append] at h
    rcases h with h | h
    · exact (exposes_of_mem_leftmost c h).append_right cs
    · split at h
      · next hc =>
        have hvanishes : g.Vanishes [c] :=
          vanishes_iff.mpr (by rw [Clause.allNullable, hc]; rfl)
        exact (exposes_of_mem_leftmostSeq cs h).append_left hvanishes
      · exact absurd h List.not_mem_nil

/-- What is leftmost in some branches is exposed by one of them. -/
theorem exists_exposes_of_mem_leftmostAny :
    (bs : List (Clause K)) → x ∈ Clause.leftmostAny g.nullable.contains bs →
      ∃ b ∈ bs, g.Exposes [b] x
  | b :: bs, h => by
    rw [Clause.leftmostAny, List.mem_append] at h
    rcases h with h | h
    · exact ⟨b, List.mem_cons_self, exposes_of_mem_leftmost b h⟩
    · obtain ⟨b', hb', hx⟩ := exists_exposes_of_mem_leftmostAny bs h
      exact ⟨b', List.mem_cons_of_mem b hb', hx⟩

end

/-! ## What is exposed is leftmost, or led to -/

/-- **A name leads to another** if the other can come first in one of its rules. -/
def LeadsTo (g : Grammar K α) (x y : String) : Prop :=
  ∃ n, g.get? x = some n ∧
    ∃ rule ∈ n.rules, y ∈ rule.leftmost g.nullable.contains

/-- What is leftmost in what stands for a clause is led to by what is leftmost in
the clause. -/
theorem Expands.exists_leftmost (h : g.Expands c cs)
    (hy : y ∈ Clause.leftmostSeq g.nullable.contains cs) :
    ∃ z ∈ c.leftmost g.nullable.contains, ReflTransGen g.LeadsTo z y := by
  have hrepeat {b : Clause K}
      (hy : y ∈ Clause.leftmostSeq g.nullable.contains [b, .star b]) :
      y ∈ b.leftmost g.nullable.contains := by
    rw [Clause.leftmostSeq, Clause.leftmostSeq, List.mem_append] at hy
    rcases hy with hy | hy
    · exact hy
    · split at hy
      · simpa [Clause.leftmostSeq, Clause.leftmost] using hy
      · exact absurd hy List.not_mem_nil
  cases h with
  | reference hx hrule =>
    exact ⟨_, List.mem_singleton_self _, .single ⟨_, hx, _, hrule, hy⟩⟩
  | group => exact ⟨y, hy, .refl⟩
  | choice hb =>
    rw [Clause.leftmost, Clause.leftmostAny_eq_flatMap]
    refine ⟨y, List.mem_flatMap.mpr ⟨_, hb, ?_⟩, .refl⟩
    simpa [Clause.leftmostSeq] using hy
  | optional =>
    rw [Clause.leftmost]
    exact ⟨y, by simpa [Clause.leftmostSeq] using hy, .refl⟩
  | optionalNone | starNone => exact absurd hy List.not_mem_nil
  | star | plus =>
    rw [Clause.leftmost]
    exact ⟨y, hrepeat hy, .refl⟩

/-- **What a form exposes** is led to by what is leftmost in it. -/
theorem exists_leftmost_of_exposes (h : g.Exposes form y) :
    ∃ z ∈ Clause.leftmostSeq g.nullable.contains form,
      ReflTransGen g.LeadsTo z y := by
  obtain ⟨before, d, after, hform, hbefore⟩ := h
  induction hform using ReflTransGen.head_induction_on with
  | refl =>
    refine ⟨y, Clause.mem_leftmostSeq_append.mpr (.inr
      ⟨vanishes_iff.mp hbefore, List.mem_append_left _ ?_⟩), .refl⟩
    exact List.mem_singleton_self y
  | head hstep _ ih =>
    obtain ⟨z, hz, hzy⟩ := ih
    obtain ⟨before, after, hc⟩ := hstep
    rw [List.append_assoc, Clause.mem_leftmostSeq_append,
      Clause.mem_leftmostSeq_append] at hz
    simp only [Clause.mem_leftmostSeq_append, Clause.leftmostSeq,
      List.mem_append]
    rcases hz with hz | ⟨hnull, hz | ⟨hnull', hz⟩⟩
    · exact ⟨z, .inl hz, hzy⟩
    · obtain ⟨w, hw, hwz⟩ := hc.exists_leftmost hz
      exact ⟨w, .inr ⟨hnull, .inl hw⟩, hwz.trans hzy⟩
    · refine ⟨z, .inr ⟨hnull, .inr ?_⟩, hzy⟩
      rw [if_pos (hc.isNullable hnull')]
      exact hz

end Grammar

end Descent
