import Descent.Proofs.Grammar.Rewriting

/-!
# Grammars without discard marks

A discard mark hides a part of a match from callbacks and is nothing to matching.
`Grammar.unmarked` takes all marks off a grammar, with the rule texts in which they
were written. This rewrites one clause at a time (`Grammar.Rewriting.unmarking`), so
a grammar keeps the profiles that it has (`Grammar.profiles_unmarked`).
-/

namespace Descent

variable {K α : Type}

namespace Clause

mutual

/-- **The clause without discard marks.** -/
def unmarked : Clause K → Clause K
  | token kind _ => token kind false
  | reference name _ => reference name false
  | group members => group (unmarkedAll members)
  | choice branches => choice (unmarkedAll branches)
  | optional body => optional (unmarked body)
  | star body => star (unmarked body)
  | plus body => plus (unmarked body)

/-- The clauses of a list without discard marks. -/
def unmarkedAll : List (Clause K) → List (Clause K)
  | [] => []
  | c :: cs => unmarked c :: unmarkedAll cs

end

theorem unmarkedAll_eq_map (cs : List (Clause K)) :
    unmarkedAll cs = cs.map unmarked := by
  induction cs with
  | nil => rfl
  | cons c cs ih => rw [unmarkedAll, ih, List.map_cons]

end Clause

/-- The rule without discard marks, and without the text that it was read from. -/
def Rule.unmarked (r : Rule K α) : Rule K α :=
  { r with clauses := Clause.unmarkedAll r.clauses, text := "" }

/-- The non-terminal without discard marks; operators have none. -/
def NonTerminal.unmarked (n : NonTerminal K α) : NonTerminal K α :=
  { n with rules := n.rules.map (·.unmarked) }

namespace Grammar

/-- **The grammar without discard marks**, and without the texts of its rules, in
which the marks are written. -/
def unmarked (g : Grammar K α) : Grammar K α :=
  ⟨g.start, g.nonTerminals.map (·.unmarked), by
    rw [List.map_map]
    exact g.names_nodup⟩

/-- **Taking off marks** is a rewriting. -/
def Rewriting.unmarking : Rewriting K α where
  clause := Clause.unmarked
  sequence := Clause.unmarkedAll
  rule := Rule.unmarked
  mark _ := false
  splices := false
  clause_token _ _ := by rw [Clause.unmarked]
  clause_reference _ _ := by rw [Clause.unmarked]
  clause_group _ := by rw [Clause.unmarked]
  clause_choice _ := by rw [Clause.unmarked, Clause.unmarkedAll_eq_map]
  clause_optional _ := by rw [Clause.unmarked]
  clause_star _ := by rw [Clause.unmarked]
  clause_plus _ := by rw [Clause.unmarked]
  sequence_nil := by rw [Clause.unmarkedAll]
  sequence_cons _ _ := by rw [Clause.unmarkedAll]; rfl
  clauses_rule _ := rfl
  callback_rule _ := rfl

/-- **A grammar has the profiles that it has without marks.** -/
theorem profiles_unmarked (g : Grammar K α) : g.unmarked.profiles = g.profiles :=
  @Rewriting.profiles_eq _ _ .unmarking g _ rfl

end Grammar

end Descent
