import Descent.Proofs.Matching.Derivation

/-!
# The tokens that a phrase can have

What a clause can match is settled by what the names in it can match.
`Clause.Fills` says so for tokens alone: they fill a clause if they are made of
what its parts are filled by, given which tokens fill a name.

If every rule of a grammar without operators turns tokens that fill its clauses
into tokens that fill its name, then the tokens of every tree that the grammar
allows fill what the tree is derived from (`Grammar.Derives.fills`). This is the
induction by which a grammar is read as a set of sentences.
-/

namespace Descent

variable {K α : Type}

namespace Clause

variable (P : String → List (Token K) → Prop)

mutual

/-- **Some tokens fill a clause**, given which fill the names in it. -/
def Fills : Clause K → List (Token K) → Prop
  | token kind _, ts => ∃ t, t.kind = kind ∧ ts = [t]
  | reference name _, ts => P name ts
  | group members, ts => FillAll members ts
  | choice branches, ts => FillAny branches ts
  | optional body, ts => ts = [] ∨ Fills body ts
  | star body, ts =>
    ∃ tss : List (List (Token K)), (∀ us ∈ tss, Fills body us) ∧ ts = tss.flatten
  | plus body, ts =>
    ∃ tss : List (List (Token K)),
      tss ≠ [] ∧ (∀ us ∈ tss, Fills body us) ∧ ts = tss.flatten

/-- Some tokens fill clauses one after the other. -/
def FillAll : List (Clause K) → List (Token K) → Prop
  | [], ts => ts = []
  | c :: cs, ts => ∃ us vs, Fills c us ∧ FillAll cs vs ∧ ts = us ++ vs

/-- Some tokens fill one of several clauses. -/
def FillAny : List (Clause K) → List (Token K) → Prop
  | [], _ => False
  | c :: cs, ts => Fills c ts ∨ FillAny cs ts

end

variable {P}

/-- Tokens fill one of several clauses if they fill one of them. -/
theorem fillAny_of_mem {c : Clause K} {cs : List (Clause K)}
    {ts : List (Token K)} (hc : c ∈ cs) (h : Fills P c ts) : FillAny P cs ts := by
  induction cs with
  | nil => exact absurd hc List.not_mem_nil
  | cons c' cs ih =>
    rw [FillAny]
    rcases List.mem_cons.mp hc with rfl | hc
    · exact .inl h
    · exact .inr (ih hc)

end Clause

namespace Phrase

/-- **Some tokens fill a phrase**, given which fill names. -/
def Fills (P : String → List (Token K) → Prop) :
    Phrase K → List (Token K) → Prop
  | name x, ts => P x ts
  | clause c, ts => c.Fills P ts
  | sequence cs, ts => Clause.FillAll P cs ts

end Phrase

namespace Tree

/-- The tokens of some lists of trees are those of each list in turn. -/
theorem tokensAll_flatten (tss : List (List (Tree K α))) :
    tokensAll tss.flatten = (tss.map tokensAll).flatten := by
  induction tss with
  | nil => rfl
  | cons ts tss ih =>
    rw [List.flatten_cons, tokensAll_append, ih, List.map_cons, List.flatten_cons]

/-- The tokens of a node are those of its children. -/
theorem tokensAll_singleton_node (l : Label K α) (ts : List (Tree K α)) :
    tokensAll [.node l ts] = tokensAll ts := by
  simp [tokensAll, tokens]

end Tree

namespace Grammar

open Matcher (ruleTree clauseTree)

variable [TokenKind K] {g : Grammar K α} {P : String → List (Token K) → Prop}

/-- **The tokens of what a grammar allows fill what it is derived from**, if each
rule passes from its clauses to its name and no operators are declared. -/
theorem Derives.fills
    (hops : ∀ {x : String} {n : NonTerminal K α}, g.get? x = some n →
      n.operators = [])
    (hrules : ∀ {x : String} {n : NonTerminal K α}, g.get? x = some n →
      ∀ rule ∈ n.rules, ∀ ts, Clause.FillAll P rule.clauses ts → P x ts)
    {phrase : Phrase K} {ts : List (Tree K α)} (h : g.Derives phrase ts) :
    phrase.Fills P (Tree.tokensAll ts) := by
  have hnone {x : String} {n : NonTerminal K α} {op : Operator K α}
      (hx : g.get? x = some n) (hop : op ∈ n.operators) : False := by
    rw [hops hx] at hop
    exact List.not_mem_nil hop
  -- iterations fill the body of their repetition one by one
  have hiter {b : Clause K} {tss : List (List (Tree K α))}
      (ih : ∀ ts ∈ tss, b.Fills P (Tree.tokensAll ts)) :
      ∀ us ∈ tss.map Tree.tokensAll, b.Fills P us :=
    List.forall_mem_map.mpr ih
  induction h with
  | rule hx hrule _ ih =>
    rw [ruleTree, Tree.tokensAll_singleton_node]
    exact hrules hx _ hrule _ ih
  | prefixed hx hop | infixed hx hop | postfixed hx hop =>
    exact (hnone hx hop).elim
  | token hk => exact ⟨_, hk, rfl⟩
  | reference _ ih =>
    show P _ _
    simpa [Tree.tokensAll, Phrase.Fills] using ih
  | group _ ih => exact ih
  | choice hb _ ih => exact Clause.fillAny_of_mem hb ih
  | optional _ ih =>
    rw [clauseTree, Tree.tokensAll_singleton_node]
    exact .inr ih
  | optionalNone => exact .inl rfl
  | star _ ih =>
    rw [clauseTree, Tree.tokensAll_singleton_node, Tree.tokensAll_flatten]
    exact ⟨_, hiter ih, rfl⟩
  | plus hne _ ih =>
    rw [clauseTree, Tree.tokensAll_singleton_node, Tree.tokensAll_flatten]
    exact ⟨_, List.map_eq_nil_iff.not.mpr hne, hiter ih, rfl⟩
  | nil => rfl
  | cons _ _ ih ih' => exact ⟨_, _, ih, ih', Tree.tokensAll_append _ _⟩

end Grammar

end Descent
