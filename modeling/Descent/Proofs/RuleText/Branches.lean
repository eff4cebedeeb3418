import Descent.Proofs.Grammar.Rules
import Descent.Proofs.Matching.Derivation
import Descent.RuleText.Parse

/-!
# Rule texts cannot express a choice without branches

A choice is made of parentheses around branches, and the grammar of rule texts
asks for one branch at least. The callbacks do not rely on it: each of them keeps
`Part.HasBranches` of what it is given, whatever that is, so it holds of all that
is read (`RuleText.hasBranches_of_parse`).
-/

namespace Descent

variable {K : Type}

/-- Every choice in a right-hand side has a branch. -/
def Body.HasBranches : Body K → Prop
  | .branches bs => ∀ clauses ∈ bs, Clause.AllHaveBranches clauses
  | .operator _ => True

/-- **Every choice in a piece of a rule text has a branch**, and where branches
are parted, there is one. -/
def Part.HasBranches : Part K → Prop
  | .declaration d => d.body.HasBranches
  | .body b => b.HasBranches
  | .operator _ => True
  | .branches bs => bs ≠ [] ∧ ∀ clauses ∈ bs, Clause.AllHaveBranches clauses
  | .sequence clauses => Clause.AllHaveBranches clauses
  | .clause c => c.HasBranches

namespace RuleText

open Clause

/-! ## Building clauses -/

theorem hasBranches_clauseOfSequence {clauses : List (Clause K)}
    (h : AllHaveBranches clauses) : (clauseOfSequence clauses).HasBranches := by
  unfold clauseOfSequence
  split
  · exact h.1
  · exact h

theorem hasBranches_clauseOfBranches {branches : List (List (Clause K))}
    (hne : branches ≠ [])
    (h : ∀ clauses ∈ branches, AllHaveBranches clauses) :
    (clauseOfBranches branches).HasBranches := by
  unfold clauseOfBranches
  split
  · exact hasBranches_clauseOfSequence (h _ List.mem_cons_self)
  · refine ⟨by simpa using hne, allHaveBranches_iff.mpr fun c hc => ?_⟩
    obtain ⟨clauses, hmem, rfl⟩ := List.mem_map.mp hc
    exact hasBranches_clauseOfSequence (h clauses hmem)

theorem hasBranches_withSuffix {c : Clause K} (h : c.HasBranches)
    (suffix : Option RuleKind) : (withSuffix c suffix).HasBranches := by
  unfold withSuffix
  split <;> exact h

theorem hasBranches_clauseOfName [TokenKind K] (name : String)
    (discarded : Bool) :
    (clauseOfName name discarded : Clause K).HasBranches := by
  unfold clauseOfName
  split <;> trivial

/-! ## The callbacks -/

/-- A callback keeps that choices have branches. -/
abbrev KeepsBranches (f : Callback RuleKind (Part K)) : Prop :=
  Callback.Keeps Part.HasBranches f

/-- The empty right-hand side has no choice. -/
theorem hasBranches_empty : (Part.body .empty : Part K).HasBranches := by
  show ∀ clauses ∈ [[]], AllHaveBranches clauses
  exact List.forall_mem_singleton.mpr trivial

variable {vs items : List (Arg K)}

theorem of_all_out {x : Part K} (h : ∀ v ∈ vs, v.All Part.HasBranches)
    (hx : .out x ∈ vs) : x.HasBranches := by
  cases h _ hx with
  | out h => exact h

theorem of_all_list (h : ∀ v ∈ vs, v.All Part.HasBranches)
    (hitems : .list items ∈ vs) : ∀ v ∈ items, v.All Part.HasBranches := by
  cases h _ hitems with
  | list h => exact h

theorem hasBranches_of_mem_sequences (h : ∀ v ∈ items, v.All Part.HasBranches) :
    ∀ cs ∈ sequences items, AllHaveBranches cs := by
  intro cs hmem
  obtain ⟨v, hv, hsome⟩ := List.mem_filterMap.mp hmem
  split at hsome
  · obtain rfl := Option.some.inj hsome
    exact of_all_out h hv
  · cases hsome

theorem hasBranches_of_mem_clauses (h : ∀ v ∈ items, v.All Part.HasBranches) :
    ∀ c ∈ clauses items, c.HasBranches := by
  intro c hmem
  obtain ⟨v, hv, hsome⟩ := List.mem_filterMap.mp hmem
  split at hsome
  · obtain rfl := Option.some.inj hsome
    exact of_all_out h hv
  · cases hsome

theorem keeps_readRule : KeepsBranches (K := K) readRule := by
  intro vs hvs
  unfold readRule
  split
  · next name body semicolon =>
    show body.HasBranches
    exact of_all_out (x := .body body) hvs (by simp)
  · exact hasBranches_empty

theorem keeps_readOperatorBody : KeepsBranches (K := K) readOperatorBody := by
  intro vs _
  unfold readOperatorBody
  split
  · exact True.intro
  · exact hasBranches_empty

theorem keeps_readBranchesBody : KeepsBranches (K := K) readBranchesBody := by
  intro vs hvs
  unfold readBranchesBody
  split
  · next bs => exact (of_all_out (x := .branches bs) hvs List.mem_cons_self).2
  · exact hasBranches_empty

theorem keeps_readOperator : KeepsBranches (K := K) readOperator := by
  intro vs _
  unfold readOperator
  split
  · exact True.intro
  · exact hasBranches_empty

theorem keeps_readAlternation : KeepsBranches (K := K) readAlternation := by
  intro vs hvs
  unfold readAlternation
  split
  · next first more =>
    have hfirst : AllHaveBranches first :=
      of_all_out (x := .sequence first) hvs List.mem_cons_self
    have hitems : ∀ v ∈ more, v.All Part.HasBranches :=
      of_all_list hvs (by simp)
    have hmore := hasBranches_of_mem_sequences hitems
    exact ⟨List.cons_ne_nil _ _, List.forall_mem_cons.mpr ⟨hfirst, hmore⟩⟩
  · exact hasBranches_empty

theorem keeps_readSequence : KeepsBranches (K := K) readSequence := by
  intro vs hvs
  unfold readSequence
  split
  · next items =>
    exact allHaveBranches_iff.mpr
      (hasBranches_of_mem_clauses (of_all_list hvs List.mem_cons_self))
  · exact hasBranches_empty

theorem keeps_readClause : KeepsBranches (K := K) readClause := by
  intro vs hvs
  unfold readClause
  split
  · next atom suffix =>
    have hatom : atom.HasBranches :=
      of_all_out (x := .clause atom) hvs List.mem_cons_self
    exact hasBranches_withSuffix hatom _
  · exact hasBranches_empty

theorem keeps_readName [TokenKind K] : KeepsBranches (K := K) readName := by
  intro vs _
  unfold readName
  split
  · exact hasBranches_clauseOfName _ _
  · exact hasBranches_empty

theorem keeps_readParentheses : KeepsBranches (K := K) readParentheses := by
  intro vs hvs
  unfold readParentheses
  split
  · next bs =>
    obtain ⟨hne, h⟩ := of_all_out (x := .branches bs) hvs List.mem_cons_self
    exact hasBranches_clauseOfBranches hne h
  · exact hasBranches_empty

/-! ## What is read -/

variable [TokenKind K]

/-- All callbacks of rule texts keep that choices have branches. -/
theorem allCallbacks_grammar :
    (grammar K).AllCallbacks KeepsBranches := by
  have hrules : ∀ rule ∈ rules K, KeepsBranches rule.2.callback := by
    simp only [rules, List.forall_mem_cons]
    exact ⟨keeps_readRule, keeps_readOperatorBody, keeps_readBranchesBody,
      fun _ _ => hasBranches_empty, keeps_readOperator, keeps_readAlternation,
      keeps_readSequence, keeps_readClause, keeps_readName,
      keeps_readParentheses, fun _ h => absurd h List.not_mem_nil⟩
  exact (Grammar.allCallbacks_empty root).addRules hrules

/-- A declaration is the output of the matcher over some tokens. -/
theorem exists_evaluate_of_parse {text : String} {d : Declaration K}
    (h : parse text = .ok (.ok d)) :
    ∃ tokens, (matcher K tokens).evaluate root = .ok (.ok (.declaration d)) := by
  unfold parse at h
  cases hread : lexicon.lexer.read text with
  | error fault => simp [hread, bind, Except.bind] at h
  | ok answer =>
    cases answer with
    | error e => simp [hread, bind, Except.bind, pure, Except.pure] at h
    | ok tokens =>
      refine ⟨tokens, ?_⟩
      cases hout : (matcher K tokens).evaluate root with
      | error fault => simp [hread, hout, bind, Except.bind] at h
      | ok answer =>
        simp only [hread, hout, bind, Except.bind, pure, Except.pure] at h
        split at h
        · cases h
        · next d' =>
          obtain rfl := Except.ok.inj (Except.ok.inj h)
          rfl
        · cases h

/-- **Every choice in a declaration has a branch.** -/
theorem hasBranches_of_parse {text : String} {d : Declaration K}
    (h : parse text = .ok (.ok d)) : d.body.HasBranches := by
  obtain ⟨tokens, hd⟩ := exists_evaluate_of_parse h
  exact Matcher.of_evaluate (m := matcher K tokens) allCallbacks_grammar hd

end RuleText

end Descent
