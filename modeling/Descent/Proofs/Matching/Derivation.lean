import Descent.Proofs.Grammar.Operators
import Descent.Proofs.Grammar.Rules
import Descent.Proofs.Matching.Parse
import Descent.Proofs.Matching.Termination
import Descent.Proofs.Tree.Nodes

/-!
# The tree of a parse is a derivation of all tokens

`Grammar.Derives` says which trees a grammar allows, without a matcher: a
non-terminal is the node of one of its rules over what the clauses of the rule
give, or the node of one of its operators over the operator and operands of the
same non-terminal. A group gives what its members give and a choice what one of
its branches gives; an option and a repetition are one node each.

A parse returns such a tree (`Matcher.parse_sound`). Its tokens are the tokens of
the list, in order and each once, so nothing of an abandoned attempt is left in
it. The induction runs over attempts and has two halves: the trees of a match
are derived from the goal (`Attempt.derives`), and they take the tokens between
the two runs, together with those that a goal has taken before it is begun
(`Attempt.tokens_append`).
-/

namespace Descent

/-- **What a list of trees can be derived from.** -/
inductive Phrase (K : Type) where
  /-- The non-terminal of a name. -/
  | name (name : String)
  /-- A clause. -/
  | clause (clause : Clause K)
  /-- Clauses one after the other. -/
  | sequence (clauses : List (Clause K))

variable {K α : Type}

namespace Grammar

variable [TokenKind K]

open Matcher (ruleTree operatorTree clauseTree)

/-- **The trees that a grammar allows** for a phrase. -/
inductive Derives (g : Grammar K α) : Phrase K → List (Tree K α) → Prop
  /-- A rule of a non-terminal, over what its clauses give. -/
  | rule {x : String} {head : NonTerminal K α} {rule : Rule K α}
      {ts : List (Tree K α)} :
      g.get? x = some head → rule ∈ head.rules →
      Derives g (.sequence rule.clauses) ts →
      Derives g (.name x) [ruleTree head rule ts]
  /-- An operator before its operand. -/
  | prefixed {x : String} {head : NonTerminal K α} {op : Operator K α}
      {p : UInt32} {t : Token K} {right : Tree K α} :
      g.get? x = some head → op ∈ head.operators →
      op.operation = .prefixOp p → t.kind = op.kind →
      Derives g (.name x) [right] →
      Derives g (.name x) [operatorTree head op [.leaf t false, right]]
  /-- An operator between its operands. -/
  | infixed {x : String} {head : NonTerminal K α} {op : Operator K α}
      {p : UInt32} {a : Associativity} {t : Token K} {left right : Tree K α} :
      g.get? x = some head → op ∈ head.operators →
      op.operation = .infixOp p a → t.kind = op.kind →
      Derives g (.name x) [left] → Derives g (.name x) [right] →
      Derives g (.name x) [operatorTree head op [left, .leaf t false, right]]
  /-- An operator after its operand. -/
  | postfixed {x : String} {head : NonTerminal K α} {op : Operator K α}
      {p : UInt32} {t : Token K} {left : Tree K α} :
      g.get? x = some head → op ∈ head.operators →
      op.operation = .postfixOp p → t.kind = op.kind →
      Derives g (.name x) [left] →
      Derives g (.name x) [operatorTree head op [left, .leaf t false]]
  /-- A token of the kind, marked as the clause is. -/
  | token {k : K} {d : Bool} {t : Token K} :
      t.kind = k → Derives g (.clause (.token k d)) [.leaf t d]
  /-- What the name gives, marked as the clause is. -/
  | reference {x : String} {d : Bool} {t : Tree K α} :
      Derives g (.name x) [t] →
      Derives g (.clause (.reference x d)) [t.setDiscarded d]
  /-- What the members give, one after the other. -/
  | group {cs : List (Clause K)} {ts : List (Tree K α)} :
      Derives g (.sequence cs) ts → Derives g (.clause (.group cs)) ts
  /-- What one of the branches gives. -/
  | choice {bs : List (Clause K)} {b : Clause K} {ts : List (Tree K α)} :
      b ∈ bs → Derives g (.clause b) ts → Derives g (.clause (.choice bs)) ts
  /-- A node over what the body gives. -/
  | optional {b : Clause K} {ts : List (Tree K α)} :
      Derives g (.clause b) ts →
      Derives g (.clause (.optional b))
        [clauseTree (.optional b) .optional ts]
  /-- A node over nothing. -/
  | optionalNone {b : Clause K} :
      Derives g (.clause (.optional b)) [clauseTree (.optional b) .optional []]
  /-- A node over what the iterations give, one after the other. -/
  | star {b : Clause K} {tss : List (List (Tree K α))} :
      (∀ ts ∈ tss, Derives g (.clause b) ts) →
      Derives g (.clause (.star b)) [clauseTree (.star b) .many tss.flatten]
  /-- A node over what the iterations give, one of them at least. -/
  | plus {b : Clause K} {tss : List (List (Tree K α))} :
      tss ≠ [] → (∀ ts ∈ tss, Derives g (.clause b) ts) →
      Derives g (.clause (.plus b)) [clauseTree (.plus b) .many tss.flatten]
  /-- No clause, no tree. -/
  | nil : Derives g (.sequence []) []
  /-- What the first clause gives, and what the others give. -/
  | cons {c : Clause K} {cs : List (Clause K)} {ts us : List (Tree K α)} :
      Derives g (.clause c) ts → Derives g (.sequence cs) us →
      Derives g (.sequence (c :: cs)) (ts ++ us)

/-- A name gives one tree. -/
theorem Derives.exists_eq_singleton {g : Grammar K α} {x : String}
    {ts : List (Tree K α)} (h : g.Derives (.name x) ts) : ∃ t, ts = [t] := by
  cases h <;> exact ⟨_, rfl⟩

end Grammar

/-! ## What a match gives -/

namespace Goal

/-- **What the trees of a match are**: derived from the goal. -/
def Gives [TokenKind K] (g : Grammar K α) :
    Goal K α → List (Tree K α) → Prop
  | name x, ts => g.Derives (.name x) ts
  | rules head _, ts | expression head _, ts | climb head .., ts
  | operand head, ts => g.Derives (.name head.name) ts
  | sequence clauses, ts => g.Derives (.sequence clauses) ts
  | clause c, ts => g.Derives (.clause c) ts
  | choice branches, ts => ∃ b ∈ branches, g.Derives (.clause b) ts
  | iterations body, ts =>
    ∃ tss : List (List (Tree K α)),
      (∀ us ∈ tss, g.Derives (.clause body) us) ∧ ts = tss.flatten

/-- **A goal comes from a grammar**: its non-terminal and its rules are declared,
and the operand it goes on from is derived. -/
def Of [TokenKind K] (g : Grammar K α) : Goal K α → Prop
  | rules head rs => g.get? head.name = some head ∧ rs ⊆ head.rules
  | expression head _ | operand head => g.get? head.name = some head
  | climb head _ left =>
    g.get? head.name = some head ∧ g.Derives (.name head.name) [left]
  | _ => True

/-- The tokens that were taken before a goal is begun and are part of what its
match gives. -/
@[simp] def taken : Goal K α → List (Token K)
  | climb _ _ left => left.tokens
  | _ => []

end Goal

namespace Matcher

open Grammar (Derives)

variable [DecidableEq K] [TokenKind K] {m : Matcher K α} {goal : Goal K α}
  {r : Run K} {o : Outcome K (List (Tree K α))}

/-- **The trees of a match are derived from the goal.** -/
theorem Attempt.derives (h : m.Attempt goal r o) (hg : goal.Of m.grammar) :
    o.Ensures (fun _ => True) fun ts _ => goal.Gives m.grammar ts := by
  induction h with
  | undeclared | noRule | stuck | refused | noToken | plusNone | noBranch
  | noOperand => trivial
  | head hx _ _ ih =>
    have hname := Grammar.name_of_get? hx
    subst hname
    exact ih hx
  | plain hx _ _ ih =>
    have hname := Grammar.name_of_get? hx
    subst hname
    exact ih ⟨hx, List.Subset.refl _⟩
  | rule _ ih => exact Derives.rule hg.1 (hg.2 List.mem_cons_self) (ih trivial)
  | nextRule _ _ _ ih =>
    exact ih ⟨hg.1, fun _ hx => hg.2 (List.mem_cons_of_mem _ hx)⟩
  | done => exact Derives.nil
  | andThen _ _ ih ih' =>
    exact Outcome.ensures_map.mpr ((ih' trivial).imp (fun _ h => h)
      fun _ _ => Derives.cons (ih trivial))
  | token _ hk => exact Derives.token hk
  | reference _ ih =>
    -- a name gives one tree, so marking all trees is marking this one
    refine Outcome.ensures_map.mpr ((ih trivial).imp (fun _ h => h)
      fun ts _ hts => ?_)
    obtain ⟨t, rfl⟩ := hts.exists_eq_singleton
    exact Derives.reference hts
  | group _ _ ih => exact (ih trivial).imp (fun _ h => h) fun _ _ => Derives.group
  | choice _ _ ih =>
    refine (ih trivial).imp (fun _ h => h) ?_
    rintro _ _ ⟨_, hb, hts⟩
    exact Derives.choice hb hts
  | optional _ _ ih => exact Derives.optional (ih trivial)
  | optionalNone => exact Derives.optionalNone
  | star _ _ ih =>
    refine Outcome.ensures_map.mpr ((ih trivial).imp (fun _ h => h) ?_)
    rintro _ _ ⟨tss, htss, rfl⟩
    exact Derives.star htss
  | plus _ _ _ ih ih' =>
    refine Outcome.ensures_map.mpr ((ih' trivial).imp (fun _ h => h) ?_)
    rintro _ _ ⟨tss, htss, rfl⟩
    exact Derives.plus (List.cons_ne_nil _ tss)
      (List.forall_mem_cons.mpr ⟨ih trivial, htss⟩)
  | branch _ ih => exact ⟨_, List.mem_cons_self, ih trivial⟩
  | nextBranch _ _ _ ih =>
    refine (ih trivial).imp (fun _ h => h) ?_
    rintro _ _ ⟨b, hb, hts⟩
    exact ⟨b, List.mem_cons_of_mem _ hb, hts⟩
  | stop | still => exact ⟨[], fun _ h => absurd h List.not_mem_nil, rfl⟩
  | again _ _ _ ih ih' =>
    refine Outcome.ensures_map.mpr ((ih' trivial).imp (fun _ h => h) ?_)
    rintro _ _ ⟨tss, htss, rfl⟩
    exact ⟨_ :: tss, List.forall_mem_cons.mpr ⟨ih trivial, htss⟩, rfl⟩
  | fromOperand _ _ ih ih' => exact ih' ⟨hg, ih hg⟩
  | noOperator => exact hg.2
  | postfixed ht hp _ ih =>
    obtain ⟨hop, hk, _⟩ :=
      NonTerminal.of_trailingOperator? (trailing?_eq_some_iff.mp ht).2.1
    exact ih ⟨hg.1, Derives.postfixed hg.1 hop hp hk.symm hg.2⟩
  | noRight => exact hg.2
  | infixed ht hp _ _ ih ih' =>
    obtain ⟨hop, hk, _⟩ :=
      NonTerminal.of_trailingOperator? (trailing?_eq_some_iff.mp ht).2.1
    exact ih' ⟨hg.1, Derives.infixed hg.1 hop hp hk.symm hg.2 (ih hg.1)⟩
  | noPrefix _ _ ih | prefixNone _ _ _ _ ih =>
    exact ih ⟨hg, List.Subset.refl _⟩
  | prefixed ht _ ih =>
    obtain ⟨hop, hk, _, hp⟩ :=
      NonTerminal.of_leadingOperator? (leading?_eq_some_iff.mp ht).2
    exact Derives.prefixed hg hop hp hk.symm (ih hg)

/-! ## The tokens of a match -/

omit [DecidableEq K] [TokenKind K] in
/-- The token at an index is the first of those from the index on. -/
theorem drop_toList {i : Nat} {t : Token K} (h : m.tokens.get? i = some t) :
    m.tokens.toList.drop i = t :: m.tokens.toList.drop (i + 1) := by
  rw [TokenList.get?_eq, List.getElem?_eq_some_iff] at h
  obtain ⟨hi, rfl⟩ := h
  exact List.drop_eq_getElem_cons hi

/-- **A match gives the tokens it takes**, in order: what it gives and what is
left is what there was. -/
theorem Attempt.tokens_append (h : m.Attempt goal r o) :
    o.Ensures (fun _ => True) fun ts r' =>
      Tree.tokensAll ts ++ m.tokens.toList.drop r'.index =
        goal.taken ++ m.tokens.toList.drop r.index := by
  induction h with
  | undeclared | noRule | stuck | refused | noToken | plusNone | noBranch
  | noOperand => trivial
  | head _ _ _ ih | plain _ _ _ ih => exact ih
  | rule _ ih => simpa [ruleTree, Tree.tokensAll, Tree.tokens] using ih
  | nextRule _ _ _ ih | nextBranch _ _ _ ih => exact ih
  | done | optionalNone | stop | still => rfl
  | andThen _ _ ih ih' =>
    refine Outcome.ensures_map.mpr (ih'.imp (fun _ h => h) fun _ _ hus => ?_)
    rw [Tree.tokensAll_append, List.append_assoc, hus]
    exact ih
  | token ht => rw [drop_toList ht]; rfl
  | reference _ ih =>
    refine Outcome.ensures_map.mpr (ih.imp (fun _ h => h) fun ts _ hts => ?_)
    rw [Tree.tokensAll_eq_flatMap] at hts ⊢
    simpa [List.flatMap_map] using hts
  | group _ _ ih | choice _ _ ih => exact ih
  | optional _ _ ih =>
    simpa [clauseTree, Tree.tokensAll, Tree.tokens] using ih
  | star _ _ ih =>
    refine Outcome.ensures_map.mpr (ih.imp (fun _ h => h) fun ts _ hts => ?_)
    simpa [clauseTree, Tree.tokensAll, Tree.tokens] using hts
  | plus _ _ _ ih ih' =>
    refine Outcome.ensures_map.mpr (ih'.imp (fun _ h => h) fun us _ hus => ?_)
    simp only [clauseTree, Tree.tokensAll, Tree.tokens, Tree.tokensAll_append,
      List.append_nil, List.append_assoc]
    rw [hus]
    exact ih
  | branch _ ih => exact ih
  | again _ _ _ ih ih' =>
    refine Outcome.ensures_map.mpr (ih'.imp (fun _ h => h) fun us _ hus => ?_)
    rw [Tree.tokensAll_append, List.append_assoc, hus]
    exact ih
  | fromOperand _ _ ih ih' =>
    refine ih'.imp (fun _ h => h) fun ts _ hts => hts.trans ?_
    simpa [Tree.tokensAll] using ih
  | noOperator => simp [Tree.tokensAll]
  | postfixed ht _ _ ih =>
    refine ih.imp (fun _ h => h) fun ts _ hts => hts.trans ?_
    have := drop_toList (trailing?_eq_some_iff.mp ht).1
    simp [operatorTree, Tree.tokensAll, Tree.tokens, this]
  | noRight => simp [Tree.tokensAll]
  | infixed ht _ _ _ ih ih' =>
    refine ih'.imp (fun _ h => h) fun ts _ hts => hts.trans ?_
    have hr := drop_toList (trailing?_eq_some_iff.mp ht).1
    simp only [Outcome.ensures_matched, Goal.taken, Tree.tokensAll,
      List.append_nil, List.nil_append, Run.index_advance] at ih
    simp [operatorTree, Tree.tokensAll, Tree.tokens, hr, ih]
  | noPrefix _ _ ih | prefixNone _ _ _ _ ih => simpa using ih
  | prefixed ht _ ih =>
    have hr := drop_toList (leading?_eq_some_iff.mp ht).1
    simp only [Outcome.ensures_matched, Goal.taken, Tree.tokensAll,
      List.append_nil, List.nil_append, Run.index_advance] at ih
    simp [operatorTree, Tree.tokensAll, Tree.tokens, hr, ih]

end Matcher

/-! ## The nodes of a derivation -/

namespace Grammar

variable [TokenKind K] {g : Grammar K α}

/-- **What stands under a node**, by the kind of the node. A rule's node is over
what the clauses of one rule of its name give, an operator's node over the
operator and its operands, as the operator is declared for the name; an option
or a repetition is over what its body gives. No node is a group's. -/
def Shaped (g : Grammar K α) (l : Label K α) (cs : List (Tree K α)) : Prop :=
  match l.kind with
  | .rule => ∃ head rule, g.get? l.name = some head ∧ rule ∈ head.rules ∧
      l.callback = some rule.callback ∧ g.Derives (.sequence rule.clauses) cs
  | .expression => ∃ head op t, g.get? l.name = some head ∧
      op ∈ head.operators ∧ t.kind = op.kind ∧
      l.operation = some op.operation ∧ l.callback = some op.callback ∧
      match op.operation with
      | .prefixOp _ => ∃ right, cs = [.leaf t false, right] ∧
          g.Derives (.name l.name) [right]
      | .infixOp .. => ∃ left right, cs = [left, .leaf t false, right] ∧
          g.Derives (.name l.name) [left] ∧ g.Derives (.name l.name) [right]
      | .postfixOp _ => ∃ left, cs = [left, .leaf t false] ∧
          g.Derives (.name l.name) [left]
  | .optional => ∃ body, l.name = (Clause.optional body).display ∧
      (cs = [] ∨ g.Derives (.clause body) cs)
  | .many => ∃ body tss, cs = tss.flatten ∧
      (∀ ts ∈ tss, g.Derives (.clause body) ts) ∧
      (l.name = (Clause.star body).display ∨
        l.name = (Clause.plus body).display ∧ tss ≠ [])
  | .group => False

/-- The discard mark does not matter. -/
theorem Shaped.setDiscarded {l : Label K α} {cs : List (Tree K α)} (d : Bool)
    (h : g.Shaped l cs) : g.Shaped { l with discarded := d } cs := h

/-- **All nodes of derived trees are shaped by the grammar.** -/
theorem Derives.allNodes {p : Phrase K} {ts : List (Tree K α)}
    (h : g.Derives p ts) : ∀ t ∈ ts, t.AllNodes g.Shaped := by
  induction h with
  | rule hx hrule h ih =>
    have hname := name_of_get? hx
    subst hname
    exact List.forall_mem_singleton.mpr
      (.node ⟨_, _, hx, hrule, rfl, h⟩ ih)
  | prefixed hx hop hp hk h ih =>
    have hname := name_of_get? hx
    subst hname
    refine List.forall_mem_singleton.mpr (.node
      ⟨_, _, _, hx, hop, hk, rfl, rfl, ?_⟩ ?_)
    · rw [hp]
      exact ⟨_, rfl, h⟩
    · exact List.forall_mem_cons.mpr ⟨.leaf, ih⟩
  | infixed hx hop hp hk h h' ih ih' =>
    have hname := name_of_get? hx
    subst hname
    refine List.forall_mem_singleton.mpr (.node
      ⟨_, _, _, hx, hop, hk, rfl, rfl, ?_⟩ ?_)
    · rw [hp]
      exact ⟨_, _, rfl, h, h'⟩
    · exact List.forall_mem_cons.mpr ⟨ih _ List.mem_cons_self,
        List.forall_mem_cons.mpr ⟨.leaf, ih'⟩⟩
  | postfixed hx hop hp hk h ih =>
    have hname := name_of_get? hx
    subst hname
    refine List.forall_mem_singleton.mpr (.node
      ⟨_, _, _, hx, hop, hk, rfl, rfl, ?_⟩ ?_)
    · rw [hp]
      exact ⟨_, rfl, h⟩
    · exact List.forall_mem_cons.mpr ⟨ih _ List.mem_cons_self,
        List.forall_mem_singleton.mpr .leaf⟩
  | token => exact List.forall_mem_singleton.mpr .leaf
  | reference _ ih =>
    exact List.forall_mem_singleton.mpr
      ((ih _ List.mem_cons_self).setDiscarded fun _ _ => Shaped.setDiscarded _)
  | group _ ih | choice _ _ ih => exact ih
  | optional h ih =>
    exact List.forall_mem_singleton.mpr (.node ⟨_, rfl, .inr h⟩ ih)
  | optionalNone =>
    exact List.forall_mem_singleton.mpr (.node ⟨_, rfl, .inl rfl⟩
      fun _ h => absurd h List.not_mem_nil)
  | star h ih =>
    refine List.forall_mem_singleton.mpr
      (.node ⟨_, _, rfl, h, .inl rfl⟩ fun t ht => ?_)
    obtain ⟨ts, hts, ht⟩ := List.mem_flatten.mp ht
    exact ih ts hts t ht
  | plus hne h ih =>
    refine List.forall_mem_singleton.mpr
      (.node ⟨_, _, rfl, h, .inr ⟨rfl, hne⟩⟩ fun t ht => ?_)
    obtain ⟨ts, hts, ht⟩ := List.mem_flatten.mp ht
    exact ih ts hts t ht
  | nil => exact fun _ h => absurd h List.not_mem_nil
  | cons _ _ ih ih' =>
    exact fun t ht => (List.mem_append.mp ht).elim (ih t) (ih' t)

end Grammar

/-! ## The tree of a parse -/

namespace Matcher

variable [DecidableEq K] [TokenKind K] {m : Matcher K α} {start : String}
  {tree : Tree K α}

/-- The tree of a parse is derived from the start. -/
theorem derives_of_parse (h : m.parse start = .ok (.ok tree)) :
    m.grammar.Derives (.name start) [tree] := by
  obtain ⟨_, r, hr⟩ := parse_eq_tree_iff.mp h
  exact (attempt_of_matchAll_matched hr).1.derives trivial

/-- The tokens of a parse are the tokens of the list. -/
theorem tokensAll_of_parse (h : m.parse start = .ok (.ok tree)) :
    Tree.tokensAll [tree] = m.tokens.toList := by
  obtain ⟨_, r, hr⟩ := parse_eq_tree_iff.mp h
  obtain ⟨hatt, hlen⟩ := attempt_of_matchAll_matched hr
  have hdrop : m.tokens.toList.drop r.index = [] :=
    List.drop_eq_nil_of_le (by rwa [TokenList.length_toList])
  have htok : Tree.tokensAll [tree] ++ m.tokens.toList.drop r.index =
      m.tokens.toList := hatt.tokens_append
  rwa [hdrop, List.append_nil] at htok

/-- **What all callbacks of a grammar keep holds of the output of a parse.** -/
theorem of_evaluate {P : α → Prop}
    (hg : m.grammar.AllCallbacks (Callback.Keeps P)) {x : α}
    (h : m.evaluate start = .ok (.ok x)) : P x := by
  obtain ⟨tree, htree, hx⟩ := evaluate_eq_output_iff.mp h
  refine Tree.AllNodes.of_reduce ?_ hx
  refine ((derives_of_parse htree).allNodes tree List.mem_cons_self).imp
    fun l cs hshape hkind f hf => ?_
  rcases hkind with hkind | hkind
  · simp only [Grammar.Shaped, hkind] at hshape
    obtain ⟨head, rule, hhead, hrule, hcallback, _⟩ := hshape
    obtain rfl := Option.some.inj (hf.symm.trans hcallback)
    exact (hg head (List.mem_of_find?_eq_some hhead)).1 rule hrule
  · simp only [Grammar.Shaped, hkind] at hshape
    obtain ⟨head, op, _, hhead, hop, _, _, hcallback, _⟩ := hshape
    obtain rfl := Option.some.inj (hf.symm.trans hcallback)
    exact (hg head (List.mem_of_find?_eq_some hhead)).2 op hop

/-- **The tree of a parse is a derivation of all tokens.** Its tokens are the
tokens of the list, it is derived from the name that was parsed from, and what
stands under each of its nodes is what the grammar allows there. -/
theorem parse_sound (m : Matcher K α) {start : String} {tree : Tree K α}
    (h : m.parse start = .ok (.ok tree)) :
    tree.tokens = m.tokens.toList ∧ m.grammar.Derives (.name start) [tree] ∧
      ∀ l cs d, (.node l cs, d) ∈ tree.nodes → m.grammar.Shaped l cs := by
  have hder := derives_of_parse h
  obtain ⟨_, r, hr⟩ := parse_eq_tree_iff.mp h
  obtain ⟨hatt, hlen⟩ := attempt_of_matchAll_matched hr
  refine ⟨?_, hder, fun l cs d hmem => ?_⟩
  · have htok := hatt.tokens_append
    have hdrop : m.tokens.toList.drop r.index = [] :=
      List.drop_eq_nil_of_le (by rwa [TokenList.length_toList])
    simpa [Tree.tokensAll, hdrop] using htok
  · exact (hder.allNodes tree List.mem_cons_self).of_mem_nodesFrom hmem

end Matcher

namespace Script

/-- The tokens of `1 + 2`. -/
def onePlusTwo : TokenList ScriptKind :=
  .withStop [.unplaced .num "1", .unplaced .plus "+", .unplaced .num "2"] .start

/-- The tree of `1 + 2`, as a list of sums. -/
def onePlusTwoTree : Tree ScriptKind Unit :=
  .node (.rule "list" fun _ => ())
    [.node (.rule "marks" fun _ => ()) [.node (.bare "SEMI*" .many) []],
      .node (.expression "sum" (.infixOp 10 .left) fun _ => ())
        [.node (.rule "sum" fun _ => ()) [.leaf (.unplaced .num "1") false],
          .leaf (.unplaced .plus "+") false,
          .node (.rule "sum" fun _ => ()) [.leaf (.unplaced .num "2") false]],
      .node (.bare "(COMMA [d] sum)*" .many) []]

theorem onePlusTwoTree_sound :
    (Matcher.mk sums .ebnf onePlusTwo).parse "list" =
        .ok (.ok onePlusTwoTree) ∧
      onePlusTwoTree.tokens = onePlusTwo.toList :=
  have h : (Matcher.mk sums .ebnf onePlusTwo).parse "list" =
      .ok (.ok onePlusTwoTree) := by rfl
  ⟨h, (Matcher.parse_sound _ h).1⟩

end Script

end Descent
