import Descent.Proofs.Matching.Contribution
import Descent.Proofs.Parser.Display
import Descent.Proofs.Tree.Places

/-!
# What the callbacks of a parser are given

A callback relies on the shape of what it is given, and it knows only the rule
text that it was declared with. In a tree of a configuration that was built from
rule texts, the callback of every rule's node is given what the clauses of the
rule contribute at the place where the node stands, and the callback of every
operator's node is given the operator between, before or after the outputs of its
operands (`Builder.calls_of_parse`).

The trees of a match are made at many places in it. `Matcher.Made` keeps what is
known where a rule's node is made: its children are what an attempt at the
clauses of the rule gave, begun after the tokens that the node stands after. What
the clauses contribute there is shown once, for attempts.
-/

namespace Descent

variable {K α : Type}

open Descent.Tree (liveValues)

/-- **The values that an operator's callback asks for**: the operator, and an
output for each operand, in the order in which they stand. -/
inductive Operator.Takes (op : Operator K α) : List (Value K α) → Prop
  /-- An operator between its operands. -/
  | infixed {p : UInt32} {d : Associativity} {x y : α} {t : Token K} :
      op.operation = .infixOp p d → t.kind = op.kind →
      Takes op [.out x, .token t, .out y]
  /-- An operator before its operand. -/
  | prefixed {p : UInt32} {y : α} {t : Token K} :
      op.operation = .prefixOp p → t.kind = op.kind →
      Takes op [.token t, .out y]
  /-- An operator after its operand. -/
  | postfixed {p : UInt32} {x : α} {t : Token K} :
      op.operation = .postfixOp p → t.kind = op.kind →
      Takes op [.out x, .token t]

namespace Matcher

variable [DecidableEq K] [TokenKind K] {m : Matcher K α} {goal : Goal K α}
  {r : Run K} {o : Outcome K (List (Tree K α))} {l : Label K α}
  {cs : List (Tree K α)}

/-! ## Where nodes are made -/

/-- **The node of a rule was made by an attempt** at the clauses of the rule, begun
after the tokens that the node stands after. -/
def Made (m : Matcher K α) (before : List (Token K)) (l : Label K α)
    (cs : List (Tree K α)) : Prop :=
  l.kind = .rule → ∃ head rule r r', m.grammar.get? l.name = some head ∧
    rule ∈ head.rules ∧ l.callback = some rule.callback ∧
    m.tokens.toList = before ++ m.rest r ∧
    m.Attempt (.sequence rule.clauses) r (.matched cs r')

end Matcher

/-- A goal belongs to declared non-terminals, and the operand it goes on from was
made by attempts, after some tokens. -/
def Goal.IsMade [DecidableEq K] [TokenKind K] (m : Matcher K α)
    (before : List (Token K)) : Goal K α → Prop
  | rules head rs => m.grammar.get? head.name = some head ∧ rs ⊆ head.rules
  | expression head _ | operand head => m.grammar.get? head.name = some head
  | climb head _ left =>
    m.grammar.get? head.name = some head ∧ left.AllNodesAt m.Made before
  | _ => True

namespace Matcher

open Descent.Tree (AllNodesAlong allNodesAlong_append allNodesAlong_singleton)

variable [DecidableEq K] [TokenKind K] {m : Matcher K α} {goal : Goal K α}
  {r r' : Run K} {o : Outcome K (List (Tree K α))} {l : Label K α}
  {cs : List (Tree K α)} {before : List (Token K)}

/-- A node that is not a rule's is made if what stands under it is. -/
theorem allNodesAt_made_node (hkind : (l.kind == .rule) = false)
    (hcs : AllNodesAlong m.Made before cs) :
    (Tree.node l cs).AllNodesAt m.Made before :=
  ⟨fun h => absurd h (beq_eq_false_iff_ne.mp hkind), hcs⟩

/-- What a match gave is what the next goal stands after. -/
theorem Attempt.toList_eq {ts : List (Tree K α)}
    (h : m.Attempt goal r (.matched ts r'))
    (hbefore : m.tokens.toList = before ++ (goal.taken ++ m.rest r)) :
    m.tokens.toList = before ++ Tree.tokensAll ts ++ m.rest r' := by
  have htokens : Tree.tokensAll ts ++ m.rest r' = goal.taken ++ m.rest r :=
    h.tokens_append
  rw [hbefore, List.append_assoc, htokens]

/-- **All nodes of a match were made by attempts**, each begun where the node
stands. -/
theorem Attempt.allNodesAlong_made (h : m.Attempt goal r o)
    (hgoal : goal.IsMade m before)
    (hbefore : m.tokens.toList = before ++ (goal.taken ++ m.rest r)) :
    o.Ensures (fun _ => True) fun us _ => AllNodesAlong m.Made before us := by
  induction h generalizing before with
  | undeclared | noRule | stuck | refused | noToken | plusNone | noBranch
  | noOperand => trivial
  | head hx _ _ ih =>
    have hname := Grammar.name_of_get? hx
    subst hname
    exact ih hx hbefore
  | plain hx _ _ ih =>
    have hname := Grammar.name_of_get? hx
    subst hname
    exact ih ⟨hx, List.Subset.refl _⟩ hbefore
  | @rule n rule rules r r' us hatt ih =>
    have hmade : m.Made before (.rule n.name rule.callback) us := fun _ =>
      ⟨n, rule, r, r', hgoal.1, hgoal.2 List.mem_cons_self, rfl, hbefore, hatt⟩
    exact allNodesAlong_singleton.mpr ⟨hmade, ih trivial hbefore⟩
  | nextRule _ _ _ ih =>
    exact ih ⟨hgoal.1, fun _ hx => hgoal.2 (List.mem_cons_of_mem _ hx)⟩ hbefore
  | done | stop | still => trivial
  | andThen hatt _ ih ih' =>
    have hnext := ih' trivial (hatt.toList_eq hbefore)
    refine Outcome.ensures_map.mpr (hnext.imp (fun _ h => h) ?_)
    exact fun us _ hus => allNodesAlong_append.mpr ⟨ih trivial hbefore, hus⟩
  | token => exact allNodesAlong_singleton.mpr trivial
  | reference _ ih =>
    refine Outcome.ensures_map.mpr ((ih trivial hbefore).imp (fun _ h => h) ?_)
    exact fun us _ hus => hus.map_setDiscarded fun _ _ _ h => h
  | group _ _ ih | choice _ _ ih | branch _ ih | nextBranch _ _ _ ih =>
    exact ih trivial hbefore
  | optional _ _ ih =>
    exact allNodesAlong_singleton.mpr
      (allNodesAt_made_node rfl (ih trivial hbefore))
  | optionalNone =>
    exact allNodesAlong_singleton.mpr (allNodesAt_made_node rfl trivial)
  | star _ _ ih =>
    refine Outcome.ensures_map.mpr ((ih trivial hbefore).imp (fun _ h => h) ?_)
    exact fun us _ hus =>
      allNodesAlong_singleton.mpr (allNodesAt_made_node rfl hus)
  | plus _ hatt _ ih ih' =>
    have hnext := ih' trivial (hatt.toList_eq hbefore)
    refine Outcome.ensures_map.mpr (hnext.imp (fun _ h => h) ?_)
    exact fun us _ hus => allNodesAlong_singleton.mpr (allNodesAt_made_node rfl
      (allNodesAlong_append.mpr ⟨ih trivial hbefore, hus⟩))
  | again hatt _ _ ih ih' =>
    have hnext := ih' trivial (hatt.toList_eq hbefore)
    refine Outcome.ensures_map.mpr (hnext.imp (fun _ h => h) ?_)
    exact fun us _ hus => allNodesAlong_append.mpr ⟨ih trivial hbefore, hus⟩
  | fromOperand hatt _ ih ih' =>
    refine ih' ⟨hgoal, allNodesAlong_singleton.mp (ih hgoal hbefore)⟩ ?_
    simpa [Tree.tokensAll] using hatt.toList_eq hbefore
  | noOperator | noRight => exact allNodesAlong_singleton.mpr hgoal.2
  | postfixed ht _ _ ih =>
    rw [rest_eq_cons (trailing?_eq_some_iff.mp ht).1] at hbefore
    refine ih ⟨hgoal.1, allNodesAt_made_node rfl ⟨hgoal.2, trivial, trivial⟩⟩ ?_
    simpa [operatorTree, Tree.tokensAll, Tree.tokens] using hbefore
  | @infixed n _ left right r _ t _ _ _ _ ht _ hatt _ ih ih' =>
    rw [rest_eq_cons (trailing?_eq_some_iff.mp ht).1] at hbefore
    -- the right operand stands after the left one and the operator
    have hop : m.tokens.toList =
        before ++ left.tokens ++ [t] ++ ([] ++ m.rest r.advance) := by
      simpa using hbefore
    have hright := allNodesAlong_singleton.mp (ih hgoal.1 hop)
    refine ih' ⟨hgoal.1,
      allNodesAt_made_node rfl ⟨hgoal.2, trivial, hright, trivial⟩⟩ ?_
    simpa [operatorTree, Tree.tokensAll, Tree.tokens] using hatt.toList_eq hop
  | noPrefix _ _ ih =>
    refine ih ⟨hgoal, List.Subset.refl _⟩ ?_
    rwa [rest_expectAll]
  | prefixNone _ _ _ _ ih =>
    refine ih ⟨hgoal, List.Subset.refl _⟩ ?_
    rwa [rest_expectAll]
  | @prefixed n r _ t _ _ ht hatt ih =>
    rw [rest_eq_cons (leading?_eq_some_iff.mp ht).1] at hbefore
    have hop : m.tokens.toList = before ++ [t] ++ ([] ++ m.rest r.advance) := by
      simpa using hbefore
    have hright := allNodesAlong_singleton.mp (ih hgoal hop)
    exact allNodesAlong_singleton.mpr
      (allNodesAt_made_node rfl ⟨trivial, hright, trivial⟩)

/-! ## What callbacks are given -/

/-- **What the callback of a node is given** that stands after some tokens. That of
a rule's node is given what the clauses of the rule contribute there, at the tokens
of the node and what follows them, and that of an operator's node the values that
the operator's callback asks for. -/
def Calls (m : Matcher K α) (before : List (Token K)) (l : Label K α)
    (cs : List (Tree K α)) : Prop :=
  match l.kind with
  | .rule => ∃ head rule ts rest vs, m.grammar.get? l.name = some head ∧
      rule ∈ head.rules ∧ l.callback = some rule.callback ∧
      m.tokens.toList = before ++ ts ∧ ts = Tree.tokensAll cs ++ rest ∧
      m.grammar.Contributes m.style (.sequence rule.clauses) ts vs rest ∧
      liveValues cs = .ok vs ∧
      (Tree.node l cs).value = .ok (.out (rule.callback vs))
  | .expression => ∃ head op vs, m.grammar.get? l.name = some head ∧
      op ∈ head.operators ∧ l.callback = some op.callback ∧ op.Takes vs ∧
      liveValues cs = .ok vs ∧
      (Tree.node l cs).value = .ok (.out (op.callback vs))
  | _ => True

/-- The callback of a rule's node is given what the clauses contribute. -/
theorem Made.calls (h : m.Made before l cs) (hkind : l.kind = .rule)
    (hg : m.grammar.AllRules fun _ clauses => ∀ c ∈ clauses, c.IsWritten) :
    m.Calls before l cs := by
  obtain ⟨head, rule, r, r', hx, hrule, hcallback, hbefore, hatt⟩ := h hkind
  have hwritten := hg head (List.mem_of_find?_eq_some hx) rule hrule
  obtain ⟨vs, hvs, hcontr⟩ := hatt.shows hwritten
  have htokens : Tree.tokensAll cs ++ m.rest r' = m.rest r := hatt.tokens_append
  rw [Calls, hkind]
  exact ⟨head, rule, m.rest r, m.rest r', vs, hx, hrule, hcallback,
    hbefore, htokens.symm, hcontr, hvs,
    Tree.value_node (.inl hkind) hcallback hvs⟩

/-- The callback of an operator's node is given its operands and itself. -/
theorem calls_of_shaped (h : m.grammar.Shaped l cs)
    (hkind : l.kind = .expression) : m.Calls before l cs := by
  simp only [Grammar.Shaped, hkind] at h
  obtain ⟨head, op, t, hx, hop, hk, _, hcallback, hoperands⟩ := h
  have hvs : ∃ vs, liveValues cs = .ok vs ∧ op.Takes vs := by
    split at hoperands
    · next p hp =>
      obtain ⟨right, rfl, hright⟩ := hoperands
      obtain ⟨hd, y, hy⟩ := hright.isOutput
      exact ⟨_, Tree.liveValues_cons rfl rfl (Tree.liveValues_cons hd hy rfl),
        .prefixed hp hk⟩
    · next p d hp =>
      obtain ⟨left, right, rfl, hleft, hright⟩ := hoperands
      obtain ⟨hd, x, hx⟩ := hleft.isOutput
      obtain ⟨hd', y, hy⟩ := hright.isOutput
      exact ⟨_, Tree.liveValues_cons hd hx (Tree.liveValues_cons rfl rfl
        (Tree.liveValues_cons hd' hy rfl)), .infixed hp hk⟩
    · next p hp =>
      obtain ⟨left, rfl, hleft⟩ := hoperands
      obtain ⟨hd, x, hx⟩ := hleft.isOutput
      exact ⟨_, Tree.liveValues_cons hd hx (Tree.liveValues_cons rfl rfl rfl),
        .postfixed hp hk⟩
  obtain ⟨vs, hvs, htakes⟩ := hvs
  rw [Calls, hkind]
  exact ⟨head, op, vs, hx, hop, hcallback, htakes, hvs,
    Tree.value_node (.inr hkind) hcallback hvs⟩

end Matcher

/-- **Callbacks are given the shape of their rules.** Let a configuration be
built from rule texts, and let some tokens be parsed from some name in some style.
Then the tree has an output, and on the way to it the callback of every rule's
node is given what the clauses of the rule contribute where the node stands, and
the callback of every operator's node the operator and the outputs of its
operands. Every node stands somewhere. -/
theorem Builder.calls_of_parse [DecidableEq K] [TokenKind K] {b : Builder K α}
    {start : String} {g : Grammar K α} {errors : List BuildError}
    (hb : b.extract start = .ok (g, errors)) {style : Style}
    {tokens : TokenList K} {name : String} {tree : Tree K α}
    (h : (Matcher.mk g style tokens).parse name = .ok (.ok tree)) :
    (∃ y, tree.reduce = .ok y) ∧
      ∀ l cs d, (.node l cs, d) ∈ tree.nodes →
        (∃ before, tree.Stands before (.node l cs)) ∧
        ∀ before, tree.Stands before (.node l cs) →
          (Matcher.mk g style tokens).Calls before l cs := by
  obtain ⟨_, r, hr⟩ := Matcher.parse_eq_tree_iff.mp h
  have hatt := (Matcher.attempt_of_matchAll_matched hr).1
  have hmade : tree.AllNodesAt (Matcher.mk g style tokens).Made [] := by
    rw [← Tree.allNodesAlong_singleton]
    exact hatt.allNodesAlong_made trivial rfl
  have hshaped := (Matcher.parse_sound _ h).2.2
  have hwritten : g.AllRules fun _ clauses => ∀ c ∈ clauses, c.IsWritten :=
    fun n hn rule hrule => (isWritten_of_extract hb n hn rule hrule).2
  refine ⟨Matcher.exists_reduce_of_parse h, fun l cs d hmem =>
    ⟨Tree.exists_stands hmem, fun before hstands => ?_⟩⟩
  cases hkind : l.kind with
  | rule => exact (hmade.of_stands hstands).1.calls hkind hwritten
  | expression => exact Matcher.calls_of_shaped (hshaped l cs d hmem) hkind
  | many | optional | group => simp only [Matcher.Calls, hkind]

namespace Script

/-- Productions of calls. The signs of a call are discarded, its arguments may be
missing, and each callback counts what it is given. -/
def calls : Builder ScriptKind Nat :=
  ((Builder.empty.production "call"
    "call : IDENT LPAREN [d] (arg (COMMA [d] arg)*)? RPAREN [d]"
    List.length).production "arg" "arg : NUM" List.length).production "arg"
    "arg : %infix PLUS 10" List.length

/-- The tokens of `f(1+2)`. -/
def oneCall : TokenList ScriptKind :=
  .withStop
    [.unplaced .ident "f", .unplaced .lparen "(", .unplaced .num "1",
      .unplaced .plus "+", .unplaced .num "2", .unplaced .rparen ")"] .start

/-- The callback of a call is given two values, its name and its arguments. -/
theorem oneCall_calls :
    ∃ g errors tree, calls.extract "call" = .ok (g, errors) ∧
      (Matcher.mk g .ebnf oneCall).parse "call" = .ok (.ok tree) ∧
      tree.reduce = .ok 2 ∧ tree.nodes.length = 6 ∧
      ∀ l cs d, (.node l cs, d) ∈ tree.nodes →
        (∃ before, tree.Stands before (.node l cs)) ∧
        ∀ before, tree.Stands before (.node l cs) →
          (Matcher.mk g .ebnf oneCall).Calls before l cs := by
  have heval : (match calls.extract "call" with
      | .ok (g, _) =>
        match (Matcher.mk g .ebnf oneCall).parse "call" with
        | .ok (.ok tree) => tree.nodes.length == 6 &&
          match tree.reduce with
          | .ok y => y == 2
          | .error _ => false
        | .ok (.error _) => false
        | .error _ => false
      | .error _ => false) = true := by
    decide +kernel
  split at heval
  · next g errors hg =>
    split at heval
    · next tree htree =>
      obtain ⟨hnodes, heval⟩ := Bool.and_eq_true_iff.mp heval
      split at heval
      · next y hy =>
        rw [eq_of_beq heval] at hy
        exact ⟨g, errors, tree, hg, htree, hy, eq_of_beq hnodes,
          (Builder.calls_of_parse hg htree).2⟩
      · cases heval
    · cases heval
    · cases heval
  · cases heval

end Script

end Descent
