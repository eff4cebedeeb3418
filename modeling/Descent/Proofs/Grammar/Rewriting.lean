import Descent.Proofs.Grammar.Profile

/-!
# Rewriting the clauses of a grammar

Some ways of rewriting clauses keep what the checks of a grammar read. A
`Grammar.Rewriting` rewrites clauses one by one and changes marks and rule texts, and
it may put the members of a group in the place of the group where the group stands in
a sequence. A sequence can match nothing if all in it can, and what can come first in
a group that stands in a sequence are the names that can come first in its members,
and in what follows if all of these can match nothing. So a rewritten grammar has the
profiles that it had (`Grammar.Rewriting.profiles_eq`).
-/

namespace Descent

variable {K α : Type}

/-! ## Clauses in sequences -/

namespace Clause

/-- What a clause is in a sequence: a group its members, any other clause itself. -/
def spliced : Clause K → List (Clause K)
  | group members => members
  | token kind d => [token kind d]
  | reference name d => [reference name d]
  | choice branches => [choice branches]
  | optional body => [optional body]
  | star body => [star body]
  | plus body => [plus body]

/-- What stands for a clause in a sequence, where groups may be spliced. -/
def placed (splices : Bool) (c : Clause K) : List (Clause K) :=
  if splices then c.spliced else [c]

variable (splices : Bool) (nullable : String → Bool)

@[simp] theorem referencesAll_placed (c : Clause K) :
    referencesAll (c.placed splices) = c.references := by
  cases splices <;> cases c <;> simp [placed, spliced, referencesAll, references]

@[simp] theorem allNullable_placed (c : Clause K) :
    allNullable nullable (c.placed splices) = c.isNullable nullable := by
  cases splices <;> cases c <;> simp [placed, spliced, allNullable, isNullable]

@[simp] theorem leftmostSeq_placed (c : Clause K) :
    leftmostSeq nullable (c.placed splices) = c.leftmost nullable := by
  cases splices <;> cases c <;> simp [placed, spliced, leftmostSeq, leftmost]

end Clause

/-! ## Rewritings -/

namespace Grammar

/-- **A way of rewriting clauses.** -/
structure Rewriting (K α : Type) where
  /-- What a clause becomes. -/
  clause : Clause K → Clause K
  /-- What the clauses of a sequence become. -/
  sequence : List (Clause K) → List (Clause K)
  /-- What a rule becomes. -/
  rule : Rule K α → Rule K α
  /-- What a discard mark becomes. -/
  mark : Bool → Bool
  /-- Whether groups that stand in a sequence are replaced by their members. -/
  splices : Bool
  /-- A token is one of its kind. -/
  clause_token : ∀ k d, clause (.token k d) = .token k (mark d)
  /-- A reference is one to its name. -/
  clause_reference : ∀ x d, clause (.reference x d) = .reference x (mark d)
  /-- The members of a group are a sequence. -/
  clause_group : ∀ cs, clause (.group cs) = .group (sequence cs)
  /-- The branches of a choice are rewritten one by one. -/
  clause_choice : ∀ bs, clause (.choice bs) = .choice (bs.map clause)
  /-- The body of an option is rewritten. -/
  clause_optional : ∀ b, clause (.optional b) = .optional (clause b)
  /-- The body of a repetition is rewritten. -/
  clause_star : ∀ b, clause (.star b) = .star (clause b)
  /-- So is that of a repetition that needs it once. -/
  clause_plus : ∀ b, clause (.plus b) = .plus (clause b)
  /-- Nothing stays nothing. -/
  sequence_nil : sequence [] = []
  /-- A sequence is rewritten clause by clause. -/
  sequence_cons : ∀ c cs,
    sequence (c :: cs) = (clause c).placed splices ++ sequence cs
  /-- The clauses of a rule are a sequence. -/
  clauses_rule : ∀ r, (rule r).clauses = sequence r.clauses
  /-- The callback of a rule is kept. -/
  callback_rule : ∀ r, (rule r).callback = r.callback

namespace Rewriting

variable (R : Rewriting K α)

/-- What a non-terminal becomes. -/
def head (n : NonTerminal K α) : NonTerminal K α :=
  { n with rules := n.rules.map R.rule }

@[simp] theorem isPlain_clause (c : Clause K) :
    (R.clause c).isPlain = c.isPlain := by
  cases c with
  | token => rw [R.clause_token]; rfl
  | reference => rw [R.clause_reference]; rfl
  | group => rw [R.clause_group]; rfl
  | choice => rw [R.clause_choice]; rfl
  | optional => rw [R.clause_optional]; rfl
  | star => rw [R.clause_star]; rfl
  | plus => rw [R.clause_plus]; rfl

/-! ### What the checks read -/

mutual

@[simp] theorem references_clause :
    (c : Clause K) → (R.clause c).references = c.references
  | .token .. => by rw [R.clause_token]; rfl
  | .reference .. => by rw [R.clause_reference]; rfl
  | .group members => by rw [R.clause_group]; exact referencesAll_sequence members
  | .choice branches => by rw [R.clause_choice]; exact referencesAll_map branches
  | .optional body => by rw [R.clause_optional]; exact references_clause body
  | .star body => by rw [R.clause_star]; exact references_clause body
  | .plus body => by rw [R.clause_plus]; exact references_clause body

@[simp] theorem referencesAll_sequence :
    (cs : List (Clause K)) →
      Clause.referencesAll (R.sequence cs) = Clause.referencesAll cs
  | [] => by rw [R.sequence_nil]
  | c :: cs => by
    rw [R.sequence_cons, Clause.referencesAll_append, Clause.referencesAll_placed,
      references_clause c, referencesAll_sequence cs, Clause.referencesAll]

theorem referencesAll_map :
    (cs : List (Clause K)) →
      Clause.referencesAll (cs.map R.clause) = Clause.referencesAll cs
  | [] => rfl
  | c :: cs => by
    rw [List.map_cons, Clause.referencesAll, references_clause c, referencesAll_map cs,
      Clause.referencesAll]

end

variable (nullable : String → Bool)

mutual

@[simp] theorem isNullable_clause :
    (c : Clause K) → (R.clause c).isNullable nullable = c.isNullable nullable
  | .token .. => by rw [R.clause_token]; rfl
  | .reference .. => by rw [R.clause_reference]; rfl
  | .group members => by rw [R.clause_group]; exact allNullable_sequence members
  | .choice branches => by rw [R.clause_choice]; exact anyNullable_map branches
  | .optional _ => by rw [R.clause_optional]; rfl
  | .star _ => by rw [R.clause_star]; rfl
  | .plus body => by rw [R.clause_plus]; exact isNullable_clause body

@[simp] theorem allNullable_sequence :
    (cs : List (Clause K)) →
      Clause.allNullable nullable (R.sequence cs) = Clause.allNullable nullable cs
  | [] => by rw [R.sequence_nil]
  | c :: cs => by
    rw [R.sequence_cons, Clause.allNullable_append, Clause.allNullable_placed,
      isNullable_clause c, allNullable_sequence cs, Clause.allNullable]

theorem anyNullable_map :
    (cs : List (Clause K)) →
      Clause.anyNullable nullable (cs.map R.clause) = Clause.anyNullable nullable cs
  | [] => rfl
  | c :: cs => by
    rw [List.map_cons, Clause.anyNullable, isNullable_clause c, anyNullable_map cs,
      Clause.anyNullable]

end

mutual

@[simp] theorem leftmost_clause :
    (c : Clause K) → (R.clause c).leftmost nullable = c.leftmost nullable
  | .token .. => by rw [R.clause_token]; rfl
  | .reference .. => by rw [R.clause_reference]; rfl
  | .group members => by rw [R.clause_group]; exact leftmostSeq_sequence members
  | .choice branches => by rw [R.clause_choice]; exact leftmostAny_map branches
  | .optional body => by rw [R.clause_optional]; exact leftmost_clause body
  | .star body => by rw [R.clause_star]; exact leftmost_clause body
  | .plus body => by rw [R.clause_plus]; exact leftmost_clause body

@[simp] theorem leftmostSeq_sequence :
    (cs : List (Clause K)) →
      Clause.leftmostSeq nullable (R.sequence cs) = Clause.leftmostSeq nullable cs
  | [] => by rw [R.sequence_nil]
  | c :: cs => by
    rw [R.sequence_cons, Clause.leftmostSeq_append, Clause.leftmostSeq_placed,
      Clause.allNullable_placed, leftmost_clause c, isNullable_clause R nullable c,
      leftmostSeq_sequence cs, Clause.leftmostSeq]

theorem leftmostAny_map :
    (cs : List (Clause K)) →
      Clause.leftmostAny nullable (cs.map R.clause) = Clause.leftmostAny nullable cs
  | [] => rfl
  | c :: cs => by
    rw [List.map_cons, Clause.leftmostAny, leftmost_clause c, leftmostAny_map cs,
      Clause.leftmostAny]

end

@[simp] theorem profile_head (n : NonTerminal K α) :
    (R.head n).profile = n.profile := by
  simp [NonTerminal.profile, head, NonTerminal.isNullable, NonTerminal.references,
    Rule.isNullable, Rule.leftmost, Rule.references, R.clauses_rule, List.any_map,
    List.flatMap_map, Function.comp_def]

/-! ### Grammars -/

variable {R} {g g' : Grammar K α}

/-- **A rewritten grammar has the profiles that it had.** -/
theorem profiles_eq (h : g'.nonTerminals = g.nonTerminals.map R.head) :
    g'.profiles = g.profiles := by
  rw [profiles, h, List.map_map]
  exact List.map_congr_left fun n _ => R.profile_head n

/-- The entry of a name is rewritten. -/
theorem get?_eq (h : g'.nonTerminals = g.nonTerminals.map R.head) (x : String) :
    g'.get? x = (g.get? x).map R.head := by
  rw [get?, h, List.find?_map]
  rfl

end Rewriting

end Grammar

end Descent
