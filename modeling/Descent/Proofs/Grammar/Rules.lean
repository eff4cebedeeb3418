import Descent.Grammar.Basic

/-!
# What holds of all rules of a grammar

A grammar is put together rule by rule and operator by operator. What holds of
all that is put in holds of the grammar (`Grammar.forall_mem_update`). Two such
things are used:

* **Clauses have a property** (`Grammar.AllRules`). One is that choices have
  branches (`Grammar.HasBranches`). A choice without branches matches nothing, and
  there is nothing that it could be said to expect. Rule texts cannot express one,
  but a grammar put together by hand can hold one.
* **Callbacks keep a property** (`Grammar.AllCallbacks`).
-/

namespace Descent

variable {K α : Type}

namespace Clause

mutual

/-- **Every choice in a clause has a branch.** -/
def HasBranches : Clause K → Prop
  | token .. | reference .. => True
  | group members => AllHaveBranches members
  | choice branches => branches ≠ [] ∧ AllHaveBranches branches
  | optional body | star body | plus body => HasBranches body

/-- Every choice in some clauses has a branch. -/
def AllHaveBranches : List (Clause K) → Prop
  | [] => True
  | c :: cs => HasBranches c ∧ AllHaveBranches cs

end

theorem allHaveBranches_iff {cs : List (Clause K)} :
    AllHaveBranches cs ↔ ∀ c ∈ cs, c.HasBranches := by
  induction cs with
  | nil => simp [AllHaveBranches]
  | cons c cs ih => rw [AllHaveBranches, ih, List.forall_mem_cons]

end Clause

/-- Every choice in the rules of a non-terminal has a branch. -/
def NonTerminal.HasBranches (n : NonTerminal K α) : Prop :=
  ∀ rule ∈ n.rules, Clause.AllHaveBranches rule.clauses

/-- Something holds of the clauses of all rules of a non-terminal and its name. -/
def NonTerminal.AllRules (P : String → List (Clause K) → Prop)
    (n : NonTerminal K α) : Prop :=
  ∀ rule ∈ n.rules, P n.name rule.clauses

/-- Something holds of the callbacks of a non-terminal. -/
def NonTerminal.AllCallbacks (Q : Callback K α → Prop) (n : NonTerminal K α) :
    Prop :=
  (∀ rule ∈ n.rules, Q rule.callback) ∧ ∀ o ∈ n.operators, Q o.callback

namespace Grammar

variable {g : Grammar K α} {Q : Callback K α → Prop} {rule : Rule K α}

/-- **What a change keeps of the entry of a name, it keeps of all entries**, if it
holds of an entry with nothing in it. -/
theorem forall_mem_update {P : NonTerminal K α → Prop} {name : String}
    {f : NonTerminal K α → NonTerminal K α}
    (hf : ∀ n, n.name = name → P n → P (f n)) (hbare : P (.bare name))
    {ns : List (NonTerminal K α)}
    (h : ∀ n ∈ ns, P n) : ∀ n ∈ update name f ns, P n := by
  induction ns with
  | nil => exact List.forall_mem_singleton.mpr (hf _ rfl hbare)
  | cons n ns ih =>
    obtain ⟨hn, hns⟩ := List.forall_mem_cons.mp h
    rw [update]
    split
    · next hname => exact List.forall_mem_cons.mpr ⟨hf n hname hn, hns⟩
    · exact List.forall_mem_cons.mpr ⟨hn, ih hns⟩

/-! ## Choices have branches -/

/-- **Every choice in a grammar has a branch.** -/
def HasBranches (g : Grammar K α) : Prop :=
  ∀ n ∈ g.nonTerminals, n.HasBranches

theorem HasBranches.of_get? (h : g.HasBranches) {x : String}
    {n : NonTerminal K α} (hx : g.get? x = some n) : n.HasBranches :=
  h n (List.mem_of_find?_eq_some hx)

/-! ## Clauses -/

variable {P : String → List (Clause K) → Prop}

/-- **Something holds of the clauses of all rules of a grammar**, each with the
name that they are a rule for. -/
def AllRules (P : String → List (Clause K) → Prop) (g : Grammar K α) : Prop :=
  ∀ n ∈ g.nonTerminals, n.AllRules P

theorem allRules_empty (start : String) :
    (empty start : Grammar K α).AllRules P :=
  fun _ h => absurd h List.not_mem_nil

theorem AllRules.addRule (h : g.AllRules P) {head : String}
    (hrule : P head rule.clauses) : (g.addRule head rule).AllRules P := by
  refine forall_mem_update (fun n hname hn r hr => ?_)
    (fun _ h => absurd h List.not_mem_nil) h
  rcases List.mem_append.mp hr with hr | hr
  · exact hn r hr
  · rw [List.mem_singleton.mp hr]
    exact hname ▸ hrule

theorem AllRules.addOperator (h : g.AllRules P) (head : String)
    (operator : Operator K α) : (g.addOperator head operator).AllRules P :=
  forall_mem_update
    (fun n _ hn => show (n.withOperator operator).AllRules P from hn)
    (fun _ h => absurd h List.not_mem_nil) h

/-! ## Callbacks -/

/-- **Something holds of all callbacks of a grammar.** -/
def AllCallbacks (Q : Callback K α → Prop) (g : Grammar K α) : Prop :=
  ∀ n ∈ g.nonTerminals, n.AllCallbacks Q

theorem allCallbacks_empty (start : String) :
    (empty start : Grammar K α).AllCallbacks Q :=
  fun _ h => absurd h List.not_mem_nil

theorem AllCallbacks.addRule (h : g.AllCallbacks Q) (head : String)
    (hrule : Q rule.callback) : (g.addRule head rule).AllCallbacks Q := by
  refine forall_mem_update (fun n _ hn => ⟨fun r hr => ?_, hn.2⟩)
    ⟨fun _ h => absurd h List.not_mem_nil,
      fun _ h => absurd h List.not_mem_nil⟩ h
  rcases List.mem_append.mp hr with hr | hr
  · exact hn.1 r hr
  · rw [List.mem_singleton.mp hr]
    exact hrule

theorem AllCallbacks.addRules (h : g.AllCallbacks Q)
    {rules : List (String × Rule K α)} (hrules : ∀ rule ∈ rules, Q rule.2.callback) :
    (rules.foldl (fun g rule => g.addRule rule.1 rule.2) g).AllCallbacks Q := by
  induction rules generalizing g with
  | nil => exact h
  | cons rule rules ih =>
    obtain ⟨hrule, hrules⟩ := List.forall_mem_cons.mp hrules
    rw [List.foldl_cons]
    exact ih (h.addRule rule.1 hrule) hrules

end Grammar

end Descent
