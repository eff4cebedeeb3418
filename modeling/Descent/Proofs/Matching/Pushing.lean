import Descent.Proofs.Matching.Derivation

/-!
# Matching by pushing

A match of clauses gives the list of trees that it adds to the node around them. One
may as well build the node as one goes: each clause is handed the node around it and
pushes on it what it matched. A group and the branch of a choice then have a node of
their own, on which their members push, and which dissolves when it is pushed in its
turn; so has an iteration, which is dropped with what it has if it takes no token. An
option and a repetition push a node that stays.

`Matcher.Pushes` is matching of that kind. The two build the same nodes, with the
same runs (`Matcher.pushes_clause_iff`, `Matcher.pushes_rule_iff`).
-/

namespace Descent

variable {K α : Type}

namespace Matcher

variable [DecidableEq K] [TokenKind K]

/-- **Clauses match and push on the node around them**, from one run to another. What
fails on the way is given up with what it pushed, so that only its run is left. -/
inductive Pushes (m : Matcher K α) :
    Goal K α → Run K → Tree K α → Tree K α → Run K → Prop
  /-- The token is pushed. -/
  | token {k : K} {d : Bool} {r : Run K} {t : Token K} {node : Tree K α} :
      m.tokens.get? r.index = some t → t.kind = k →
      Pushes m (.clause (.token k d)) r node (node.push (.leaf t d)) r.advance
  /-- The tree of the name is pushed, marked as the reference is. -/
  | reference {x : String} {d : Bool} {r r' : Run K} {u node : Tree K α} :
      m.Attempt (.name x) r (.matched [u] r') →
      Pushes m (.clause (.reference x d)) r node (node.push (u.setDiscarded d)) r'
  /-- The members push on the node of the group, and that is pushed. -/
  | group {cs : List (Clause K)} {r r' : Run K} {node u : Tree K α} :
      m.style.allows (.group cs) = true →
      Pushes m (.sequence cs) r (.node .group []) u r' →
      Pushes m (.clause (.group cs)) r node (node.push u) r'
  /-- What the branches make is pushed. -/
  | choice {bs : List (Clause K)} {r r' : Run K} {node node' : Tree K α} :
      m.style.allows (.choice bs) = true →
      Pushes m (.choice bs) r node node' r' →
      Pushes m (.clause (.choice bs)) r node node' r'
  /-- The clause pushes on the node of the option, and that is pushed. -/
  | optional {b : Clause K} {r r' : Run K} {node u : Tree K α} :
      m.style.allows (.optional b) = true →
      Pushes m (.clause b) r (clauseTree (.optional b) .optional []) u r' →
      Pushes m (.clause (.optional b)) r node (node.push u) r'
  /-- The clause fails, and the node of the option is pushed without children. -/
  | optionalNone {b : Clause K} {r r' : Run K} {node : Tree K α} :
      m.style.allows (.optional b) = true →
      m.Attempt (.clause b) r (.failed r') →
      Pushes m (.clause (.optional b)) r node
        (node.push (clauseTree (.optional b) .optional [])) (r'.restore r.index)
  /-- The iterations push on the node of the repetition, and that is pushed. -/
  | star {b : Clause K} {r r' : Run K} {node u : Tree K α} :
      m.style.allows (.star b) = true →
      Pushes m (.iterations b) r (clauseTree (.star b) .many []) u r' →
      Pushes m (.clause (.star b)) r node (node.push u) r'
  /-- The first iteration pushes on the node of the repetition, and so do the
  others. -/
  | plus {b : Clause K} {r r' r'' : Run K} {node u v : Tree K α} :
      m.style.allows (.plus b) = true →
      Pushes m (.clause b) r (clauseTree (.plus b) .many []) u r' →
      Pushes m (.iterations b) r' u v r'' →
      Pushes m (.clause (.plus b)) r node (node.push v) r''
  /-- No clause pushes nothing. -/
  | done {r : Run K} {node : Tree K α} : Pushes m (.sequence []) r node node r
  /-- Clauses push one after the other on the same node. -/
  | andThen {c : Clause K} {cs : List (Clause K)} {r r' r'' : Run K}
      {node node' node'' : Tree K α} :
      Pushes m (.clause c) r node node' r' →
      Pushes m (.sequence cs) r' node' node'' r'' →
      Pushes m (.sequence (c :: cs)) r node node'' r''
  /-- The branch pushes on a node of its own, and that is pushed. -/
  | branch {b : Clause K} {bs : List (Clause K)} {r r' : Run K}
      {node u : Tree K α} :
      Pushes m (.clause b) r (.node .group []) u r' →
      Pushes m (.choice (b :: bs)) r node (node.push u) r'
  /-- The branch fails, and the others are tried from the same index. -/
  | nextBranch {b : Clause K} {bs : List (Clause K)} {r r' r'' : Run K}
      {node node' : Tree K α} :
      m.Attempt (.clause b) r (.failed r') →
      Pushes m (.choice bs) (r'.restore r.index) node node' r'' →
      Pushes m (.choice (b :: bs)) r node node' r''
  /-- An iteration fails, and its node is dropped. -/
  | stop {b : Clause K} {r r' : Run K} {node : Tree K α} :
      m.Attempt (.clause b) r (.failed r') →
      Pushes m (.iterations b) r node node (r'.restore r.index)
  /-- An iteration takes no token, and its node is dropped. -/
  | still {b : Clause K} {r r' : Run K} {node u : Tree K α} :
      Pushes m (.clause b) r (.node .group []) u r' → ¬ r.index < r'.index →
      Pushes m (.iterations b) r node node (r'.restore r.index)
  /-- An iteration pushes on a node of its own, and that is pushed. -/
  | again {b : Clause K} {r r' r'' : Run K} {node node' u : Tree K α} :
      Pushes m (.clause b) r (.node .group []) u r' → r.index < r'.index →
      Pushes m (.iterations b) r' (node.push u) node' r'' →
      Pushes m (.iterations b) r node node' r''

end Matcher

/-! ## The same nodes -/

/-- The tree of a name is not the node of a group. -/
theorem Grammar.Derives.isGroup_eq_false [TokenKind K] {g : Grammar K α} {x : String}
    {u : Tree K α} (h : g.Derives (.name x) [u]) : u.isGroup = false := by
  cases h <;> rfl

namespace Matcher

variable [DecidableEq K] [TokenKind K] {m : Matcher K α} {goal : Goal K α}
  {r r' : Run K} {o : Outcome K (List (Tree K α))} {us : List (Tree K α)}
  {l : Label K α} {cs : List (Tree K α)}

/-- A name that matches gives one tree, which is not the node of a group. -/
theorem Attempt.exists_tree {x : String} (h : m.Attempt (.name x) r (.matched us r')) :
    ∃ u, us = [u] ∧ u.isGroup = false := by
  have hder : m.grammar.Derives (.name x) us := h.derives trivial
  obtain ⟨u, rfl⟩ := hder.exists_eq_singleton
  exact ⟨u, rfl, hder.isGroup_eq_false⟩

/-- **What the trees of a match are to the node around**: if the goal consists of
clauses, what is pushed on it. -/
def Adds (m : Matcher K α) (r : Run K) (goal : Goal K α) (us : List (Tree K α))
    (r' : Run K) : Prop :=
  match goal with
  | .sequence _ | .clause _ | .choice _ | .iterations _ =>
    ∀ l cs, m.Pushes goal r (.node l cs) (.node l (cs ++ us)) r'
  | _ => True

/-- A match of clauses is matching by pushing. -/
theorem Attempt.adds (h : m.Attempt goal r o) :
    o.Ensures (fun _ => True) (m.Adds r goal) := by
  induction h with
  | undeclared | noRule | stuck | refused | noToken | plusNone | noBranch
  | noOperand | rule | noOperator | noRight | prefixed => trivial
  | head | plain | nextRule | fromOperand | postfixed | infixed | noPrefix
  | prefixNone => exact Outcome.ensures_of_forall (fun _ => trivial) fun _ _ => trivial
  | done =>
    intro l cs
    rw [List.append_nil]
    exact .done
  | andThen _ _ ih ih' =>
    refine Outcome.ensures_map.mpr (ih'.imp (fun _ h => h) fun us _ hus l cs => ?_)
    rw [← List.append_assoc]
    exact .andThen (ih l cs) (hus l _)
  | token ht hk => exact fun l cs => .token ht hk
  | @reference x d r o hx _ =>
    cases o with
    | exhausted | failed => trivial
    | matched us r' =>
      intro l cs
      obtain ⟨u, rfl, hu⟩ := hx.exists_tree
      show m.Pushes _ r _ (.node l (cs ++ [u.setDiscarded d])) r'
      rw [← Tree.push_of_isGroup_eq_false (by rwa [Tree.isGroup_setDiscarded])]
      exact .reference hx
  | group hs _ ih =>
    exact ih.imp (fun _ h => h) fun us _ hus l cs => .group hs (hus .group [])
  | choice hs _ ih =>
    exact ih.imp (fun _ h => h) fun us _ hus l cs => .choice hs (hus l cs)
  | optional hs _ ih => exact fun l cs => .optional hs (ih _ [])
  | optionalNone hs hatt _ => exact fun l cs => .optionalNone hs hatt
  | star hs _ ih =>
    exact Outcome.ensures_map.mpr
      (ih.imp (fun _ h => h) fun us _ hus l cs => .star hs (hus _ []))
  | plus hs _ _ ih ih' =>
    exact Outcome.ensures_map.mpr
      (ih'.imp (fun _ h => h) fun us _ hus l cs => .plus hs (ih _ []) (hus _ _))
  | branch _ ih => exact fun l cs => .branch (ih .group [])
  | nextBranch hatt _ _ ih =>
    exact ih.imp (fun _ h => h) fun us _ hus l cs => .nextBranch hatt (hus l cs)
  | stop hatt _ =>
    intro l cs
    rw [List.append_nil]
    exact .stop hatt
  | still _ hlt ih =>
    intro l cs
    rw [List.append_nil]
    exact .still (ih .group []) hlt
  | again _ hlt _ ih ih' =>
    refine Outcome.ensures_map.mpr (ih'.imp (fun _ h => h) fun us _ hus l cs => ?_)
    rw [← List.append_assoc]
    exact .again (ih .group []) hlt (hus l _)

/-- **What is pushed on a node is what a match gives.** -/
theorem Pushes.exists_attempt {node node' : Tree K α}
    (h : m.Pushes goal r node node' r') (hnode : node = .node l cs) :
    ∃ us, m.Attempt goal r (.matched us r') ∧ node' = .node l (cs ++ us) := by
  induction h generalizing l cs with
  | token ht hk => exact ⟨_, .token ht hk, by rw [hnode]; rfl⟩
  | @reference x d r r' u _ hx =>
    obtain ⟨_, heq, hu⟩ := hx.exists_tree
    obtain rfl := List.singleton_inj.mp heq
    refine ⟨_, .reference hx, ?_⟩
    rw [hnode, Tree.push_of_isGroup_eq_false (by rwa [Tree.isGroup_setDiscarded])]
    rfl
  | group hs _ ih =>
    obtain ⟨us, hatt, rfl⟩ := ih rfl
    exact ⟨us, .group hs hatt, by rw [hnode]; rfl⟩
  | choice hs _ ih =>
    obtain ⟨us, hatt, rfl⟩ := ih hnode
    exact ⟨us, .choice hs hatt, rfl⟩
  | optional hs _ ih =>
    obtain ⟨us, hatt, rfl⟩ := ih rfl
    exact ⟨_, .optional hs hatt, by rw [hnode]; rfl⟩
  | optionalNone hs hatt => exact ⟨_, .optionalNone hs hatt, by rw [hnode]; rfl⟩
  | star hs _ ih =>
    obtain ⟨us, hatt, rfl⟩ := ih rfl
    exact ⟨_, .star hs hatt, by rw [hnode]; rfl⟩
  | plus hs _ _ ih ih' =>
    obtain ⟨us, hatt, rfl⟩ := ih rfl
    obtain ⟨vs, hatt', rfl⟩ := ih' rfl
    exact ⟨_, .plus hs hatt hatt', by rw [hnode]; rfl⟩
  | done => exact ⟨[], .done, by rw [hnode, List.append_nil]⟩
  | andThen _ _ ih ih' =>
    obtain ⟨us, hatt, rfl⟩ := ih hnode
    obtain ⟨vs, hatt', rfl⟩ := ih' rfl
    exact ⟨us ++ vs, .andThen hatt hatt', by rw [List.append_assoc]⟩
  | branch _ ih =>
    obtain ⟨us, hatt, rfl⟩ := ih rfl
    exact ⟨us, .branch hatt, by rw [hnode]; rfl⟩
  | nextBranch hatt _ ih =>
    obtain ⟨us, hatt', rfl⟩ := ih hnode
    exact ⟨us, .nextBranch hatt hatt', rfl⟩
  | stop hatt => exact ⟨[], .stop hatt, by rw [hnode, List.append_nil]⟩
  | still _ hlt ih =>
    obtain ⟨us, hatt, rfl⟩ := ih rfl
    exact ⟨[], .still hatt hlt, by rw [hnode, List.append_nil]⟩
  | again _ hlt _ ih ih' =>
    obtain ⟨us, hatt, rfl⟩ := ih rfl
    obtain ⟨vs, hatt', rfl⟩ := ih' (by rw [hnode]; rfl)
    exact ⟨us ++ vs, .again hatt hlt hatt', by rw [List.append_assoc]; rfl⟩

/-- **Matching a clause and matching it by pushing are the same**: from the same run
to the same run, and the node around is left with what the match gives behind what it
had. -/
theorem pushes_clause_iff {c : Clause K} {t : Tree K α} :
    m.Pushes (.clause c) r (.node l cs) t r' ↔
      ∃ us, m.Attempt (.clause c) r (.matched us r') ∧ t = .node l (cs ++ us) := by
  constructor
  · exact fun h => h.exists_attempt rfl
  · rintro ⟨us, hatt, rfl⟩
    exact hatt.adds l cs

/-- **The tree of a rule is built by pushing** what its clauses match on a node
without children. -/
theorem pushes_rule_iff {head : NonTerminal K α} {rule : Rule K α} {t : Tree K α} :
    m.Pushes (.sequence rule.clauses) r (ruleTree head rule []) t r' ↔
      ∃ us, m.Attempt (.sequence rule.clauses) r (.matched us r') ∧
        t = ruleTree head rule us := by
  constructor
  · exact fun h => h.exists_attempt rfl
  · rintro ⟨us, hatt, rfl⟩
    exact hatt.adds (.rule head.name rule.callback) []

end Matcher

end Descent
