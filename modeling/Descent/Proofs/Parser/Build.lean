import Descent.Parser.Builder
import Descent.Proofs.RuleText.Branches

/-!
# What building a parser ensures

A parser that `Builder.build` returns has the grammar of the builder's
productions, in which nothing was found wrong (`Builder.build_eq_ok`). Its rules
were read from rule texts, so what holds of all that rule texts declare holds of
them (`Builder.allRules_extractFrom`): all choices in a built parser have branches
(`Builder.hasBranches_of_build`).
-/

namespace Descent.Builder

variable {K α : Type} [TokenKind K] {b : Builder K α} {style : Style}
  {start : String} {p : Parser K α} {g : Grammar K α} {catalog : Catalog}

/-- **What a built parser is made of**: the grammar of the productions, with
which nothing is wrong, the style that was asked for, and the lexer. -/
theorem build_eq_ok (h : b.build style start = .ok (.ok p)) :
    b.extract start = .ok (p.grammar, []) ∧
      validate b.catalog style p.grammar = [] ∧ p.style = style ∧
      b.lexerOf = .ok p.lexer := by
  unfold build at h
  cases hx : b.extract start with
  | error fault => simp [hx, bind, Except.bind] at h
  | ok extracted =>
    obtain ⟨g, errors⟩ := extracted
    simp only [hx, bind, Except.bind, pure, Except.pure] at h
    split at h
    · next herrors =>
      split at h
      · cases h
      · next lexer hlexer =>
        split at h
        · next hvalid =>
          obtain rfl := Except.ok.inj (Except.ok.inj h)
          rw [List.isEmpty_iff] at herrors hvalid
          rw [herrors]
          exact ⟨rfl, hvalid, rfl, hlexer⟩
        · cases h
    · cases h

/-! ## One production more -/

section Step

variable {q : Production K α} {ps : List (Production K α)}
  {answer : Except (ParseError RuleKind) (Declaration K)}

/-- A production that is added changes the grammar for those that come next. -/
theorem extractFrom_cons_of_ok {g' : Grammar K α}
    (hparse : RuleText.parse q.text = .ok answer)
    (hadd : addDeclaration catalog g q answer = .ok g') :
    extractFrom catalog g (q :: ps) = extractFrom catalog g' ps := by
  simp only [extractFrom, hparse, hadd, bind, Except.bind]

/-- One that is not added leaves the grammar as it is, and is said first. -/
theorem extractFrom_cons_of_error {e : BuildError}
    (hparse : RuleText.parse q.text = .ok answer)
    (hadd : addDeclaration catalog g q answer = .error e) :
    extractFrom catalog g (q :: ps) =
      (extractFrom catalog g ps).map fun rest => (rest.1, e :: rest.2) := by
  simp only [extractFrom, hparse, hadd, bind, Except.bind]
  cases extractFrom catalog g ps <;> rfl

end Step

/-! ## What holds of all rules -/

variable {P : String → List (Clause K) → Prop}

/-- Adding what a production declares keeps what holds of the clauses of all rules,
if it holds of those that are added. -/
theorem allRules_addDeclaration (hg : g.AllRules P) (p : Production K α)
    {answer : Except (ParseError RuleKind) (Declaration K)}
    (hanswer : ∀ head branches, answer = .ok ⟨head, .branches branches⟩ →
      ∀ clauses ∈ branches, P head clauses) {g' : Grammar K α}
    (h : addDeclaration catalog g p answer = .ok g') : g'.AllRules P := by
  unfold addDeclaration at h
  split at h
  · cases h
  · next head branches =>
    obtain rfl := Except.ok.inj h
    have hbranches := hanswer head branches rfl
    clear hanswer h
    induction branches generalizing g with
    | nil => exact hg
    | cons clauses branches ih =>
      obtain ⟨hclauses, hbranches⟩ := List.forall_mem_cons.mp hbranches
      exact ih (hg.addRule hclauses) hbranches
  · split at h
    · obtain rfl := Except.ok.inj h
      exact hg.addOperator _ _
    · cases h

/-- **What holds of the clauses that rule texts declare** is kept by extending a
grammar by productions. -/
theorem allRules_extractFrom
    (hP : ∀ text head branches,
      RuleText.parse text = .ok (.ok ⟨head, .branches branches⟩) →
      ∀ clauses ∈ branches, P head clauses)
    {ps : List (Production K α)} {errors : List BuildError} {g' : Grammar K α}
    (hg : g.AllRules P) (h : extractFrom catalog g ps = .ok (g', errors)) :
    g'.AllRules P := by
  induction ps generalizing g g' errors with
  | nil =>
    obtain rfl := (Prod.mk.inj (Except.ok.inj h)).1
    exact hg
  | cons p ps ih =>
    cases hparse : RuleText.parse (K := K) p.text with
    | error fault => simp [extractFrom, hparse, bind, Except.bind] at h
    | ok answer =>
      cases hadd : addDeclaration catalog g p answer with
      | ok g₁ =>
        rw [extractFrom_cons_of_ok hparse hadd] at h
        refine ih (allRules_addDeclaration hg p ?_ hadd) h
        rintro head branches rfl
        exact hP p.text head branches hparse
      | error e =>
        rw [extractFrom_cons_of_error hparse hadd] at h
        cases hrest : extractFrom catalog g ps with
        | error fault => simp [hrest, Except.map] at h
        | ok rest =>
          rw [hrest] at h
          obtain ⟨rfl, _⟩ := Prod.mk.inj (Except.ok.inj h)
          exact ih hg hrest

/-- **In a built parser all choices have branches.** -/
theorem hasBranches_of_build (h : b.build style start = .ok (.ok p)) :
    p.grammar.HasBranches :=
  allRules_extractFrom (P := fun _ clauses => Clause.AllHaveBranches clauses)
    (fun _ _ _ hparse => RuleText.hasBranches_of_parse hparse)
    (Grammar.allRules_empty start) (build_eq_ok h).1

end Descent.Builder
