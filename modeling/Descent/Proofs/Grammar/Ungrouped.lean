import Descent.Proofs.Grammar.Rewriting

/-!
# Grammars without groups in their sequences

A group that stands in a sequence, in the clauses of a rule or among the members of
another group, can be replaced by its members (`Grammar.Dissolves`). A group that is
a branch of a choice, or the body of an option or a repetition, stands in no
sequence, and stays.

`Grammar.ungrouped` dissolves all groups that can be, which is a rewriting
(`Grammar.Rewriting.ungrouping`), so a grammar keeps the profiles that it has
(`Grammar.profiles_ungrouped`). Grammars that come from each other by dissolving
groups are the same without groups (`Grammar.Dissolves.ungrouped_eq`).
-/

namespace Descent

variable {K α : Type}

namespace Clause

/-! ## Dissolving one group -/

mutual

/-- **A group in a sequence is dissolved** somewhere in a clause. -/
inductive Dissolves : Clause K → Clause K → Prop
  /-- Among the members of a group. -/
  | group {cs cs' : List (Clause K)} :
      DissolvesIn cs cs' → Dissolves (.group cs) (.group cs')
  /-- In one of the branches of a choice. -/
  | choice {bs₁ bs₂ : List (Clause K)} {b b' : Clause K} :
      Dissolves b b' →
      Dissolves (.choice (bs₁ ++ b :: bs₂)) (.choice (bs₁ ++ b' :: bs₂))
  /-- In the body of an option. -/
  | optional {b b' : Clause K} :
      Dissolves b b' → Dissolves (.optional b) (.optional b')
  /-- In the body of a repetition. -/
  | star {b b' : Clause K} : Dissolves b b' → Dissolves (.star b) (.star b')
  /-- In the body of a repetition that needs it once. -/
  | plus {b b' : Clause K} : Dissolves b b' → Dissolves (.plus b) (.plus b')

/-- **A group in a sequence is dissolved** there, or in a clause of the sequence. -/
inductive DissolvesIn : List (Clause K) → List (Clause K) → Prop
  /-- The group is replaced by its members. -/
  | here {cs₁ cs cs₂ : List (Clause K)} :
      DissolvesIn (cs₁ ++ .group cs :: cs₂) (cs₁ ++ cs ++ cs₂)
  /-- A clause is replaced by one in which a group is dissolved. -/
  | inside {cs₁ cs₂ : List (Clause K)} {c c' : Clause K} :
      Dissolves c c' → DissolvesIn (cs₁ ++ c :: cs₂) (cs₁ ++ c' :: cs₂)

end

/-! ## Dissolving all groups -/

mutual

/-- **The clause without groups in its sequences.** -/
def ungrouped : Clause K → Clause K
  | token kind d => token kind d
  | reference name d => reference name d
  | group members => group (ungroupedSeq members)
  | choice branches => choice (ungroupedAll branches)
  | optional body => optional (ungrouped body)
  | star body => star (ungrouped body)
  | plus body => plus (ungrouped body)

/-- The clauses of a sequence without groups. -/
def ungroupedSeq : List (Clause K) → List (Clause K)
  | [] => []
  | c :: cs => (ungrouped c).spliced ++ ungroupedSeq cs

/-- Clauses that stand in no sequence, each without groups in its sequences. -/
def ungroupedAll : List (Clause K) → List (Clause K)
  | [] => []
  | c :: cs => ungrouped c :: ungroupedAll cs

end

theorem ungroupedAll_eq_map (cs : List (Clause K)) :
    ungroupedAll cs = cs.map ungrouped := by
  induction cs with
  | nil => rfl
  | cons c cs ih => rw [ungroupedAll, ih, List.map_cons]

@[simp] theorem ungroupedSeq_append (cs ds : List (Clause K)) :
    ungroupedSeq (cs ++ ds) = ungroupedSeq cs ++ ungroupedSeq ds := by
  induction cs with
  | nil => rfl
  | cons c cs ih =>
    rw [List.cons_append, ungroupedSeq, ih, ungroupedSeq, List.append_assoc]

mutual

/-- Dissolving a group first makes no difference to dissolving all. -/
theorem Dissolves.ungrouped_eq {c c' : Clause K} :
    Dissolves c c' → c'.ungrouped = c.ungrouped
  | .group h => by rw [ungrouped, ungrouped, h.ungroupedSeq_eq]
  | .choice h => by
    simp only [ungrouped, ungroupedAll_eq_map, List.map_append, List.map_cons,
      h.ungrouped_eq]
  | .optional h | .star h | .plus h => by
    rw [ungrouped, ungrouped, h.ungrouped_eq]

theorem DissolvesIn.ungroupedSeq_eq {cs cs' : List (Clause K)} :
    DissolvesIn cs cs' → ungroupedSeq cs' = ungroupedSeq cs
  | .here => by
    simp only [ungroupedSeq_append, ungroupedSeq, ungrouped, spliced,
      List.append_assoc]
  | .inside h => by
    simp only [ungroupedSeq_append, ungroupedSeq, h.ungrouped_eq]

end

end Clause

/-! ## Grammars -/

/-- The rule without groups in its sequences. -/
def Rule.ungrouped (r : Rule K α) : Rule K α :=
  { r with clauses := Clause.ungroupedSeq r.clauses }

/-- The non-terminal without groups in the sequences of its rules. -/
def NonTerminal.ungrouped (n : NonTerminal K α) : NonTerminal K α :=
  { n with rules := n.rules.map (·.ungrouped) }

namespace Grammar

/-- **A group in a rule of a grammar is dissolved**, and nothing else is changed. -/
def Dissolves (g g' : Grammar K α) : Prop :=
  ∃ ns₁ n ns₂ rs₁ rule rs₂ clauses,
    g.nonTerminals = ns₁ ++ n :: ns₂ ∧ n.rules = rs₁ ++ rule :: rs₂ ∧
    Clause.DissolvesIn rule.clauses clauses ∧ g'.start = g.start ∧
    g'.nonTerminals =
      ns₁ ++ { n with rules := rs₁ ++ { rule with clauses } :: rs₂ } :: ns₂

/-- **The grammar without groups in its sequences.** -/
def ungrouped (g : Grammar K α) : Grammar K α :=
  ⟨g.start, g.nonTerminals.map (·.ungrouped), by
    rw [List.map_map]
    exact g.names_nodup⟩

/-- **Dissolving all groups in sequences** is a rewriting. -/
def Rewriting.ungrouping : Rewriting K α where
  clause := Clause.ungrouped
  sequence := Clause.ungroupedSeq
  rule := Rule.ungrouped
  mark := id
  splices := true
  clause_token _ _ := by rw [Clause.ungrouped, id]
  clause_reference _ _ := by rw [Clause.ungrouped, id]
  clause_group _ := by rw [Clause.ungrouped]
  clause_choice _ := by rw [Clause.ungrouped, Clause.ungroupedAll_eq_map]
  clause_optional _ := by rw [Clause.ungrouped]
  clause_star _ := by rw [Clause.ungrouped]
  clause_plus _ := by rw [Clause.ungrouped]
  sequence_nil := by rw [Clause.ungroupedSeq]
  sequence_cons _ _ := by rw [Clause.ungroupedSeq, Clause.placed, if_pos rfl]
  clauses_rule _ := rfl
  callback_rule _ := rfl

/-- **A grammar has the profiles that it has without groups.** -/
theorem profiles_ungrouped (g : Grammar K α) : g.ungrouped.profiles = g.profiles :=
  @Rewriting.profiles_eq _ _ .ungrouping g _ rfl

/-- **Dissolving a group first makes no difference** to dissolving all. -/
theorem Dissolves.ungrouped_eq {g g' : Grammar K α} (h : g.Dissolves g') :
    g'.ungrouped = g.ungrouped := by
  obtain ⟨ns₁, n, ns₂, rs₁, rule, rs₂, clauses, hg, hn, hclauses, hstart, hg'⟩ := h
  have hentries : g'.nonTerminals.map (·.ungrouped) =
      g.nonTerminals.map (·.ungrouped) := by
    simp [hg, hg', NonTerminal.ungrouped, hn, Rule.ungrouped,
      hclauses.ungroupedSeq_eq]
  simp only [ungrouped, hstart, hentries]

end Grammar

end Descent
