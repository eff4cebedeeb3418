import Descent.Matching.Matcher
import Descent.Proofs.Grammar.Operators

/-!
# What a matcher can do

The matcher is nine functions that call each other. What one of them is asked to
match is a `Goal`, and `Matcher.outcome` is the nine of them as one function of
the goal, whose matches are always lists of trees.

`Matcher.Attempt` says the same without a step budget: it relates a goal and the
run it is begun with to the way the attempt ends, and has one rule for each
thing that can happen. An attempt always ends (`Attempt.ne_exhausted`), and
whatever the functions answer within their budget is the end of an attempt
(`Matcher.attempt_of_outcome`). What holds of every attempt is then shown by
induction on the rules, and no proof has to open the functions.
-/

namespace Descent

/-- **What a matcher is asked to match.** -/
inductive Goal (K α : Type) where
  /-- The non-terminal of a name. -/
  | name (name : String)
  /-- The first that matches of some rules of a non-terminal. -/
  | rules (head : NonTerminal K α) (rules : List (Rule K α))
  /-- Clauses one after the other. -/
  | sequence (clauses : List (Clause K))
  /-- A clause. -/
  | clause (clause : Clause K)
  /-- The first that matches of some branches. -/
  | choice (branches : List (Clause K))
  /-- A clause again and again. -/
  | iterations (body : Clause K)
  /-- An expression whose operators bind at least as tightly as `least`. -/
  | expression (head : NonTerminal K α) (least : Nat)
  /-- The operators after an operand. -/
  | climb (head : NonTerminal K α) (least : Nat) (left : Tree K α)
  /-- An operand. -/
  | operand (head : NonTerminal K α)

namespace Matcher

variable {K α : Type} [DecidableEq K] [TokenKind K] {m : Matcher K α}

/-- **What a matcher answers** to a goal within a step budget. -/
def outcome (m : Matcher K α) (n : Nat) :
    Goal K α → Run K → Outcome K (List (Tree K α))
  | .name name, r => (m.nonTerminal n name r).map ([·])
  | .rules head rules, r => (m.alternatives n head rules r).map ([·])
  | .sequence clauses, r => m.sequence n clauses r
  | .clause c, r => m.clause n c r
  | .choice branches, r => m.choice n branches r
  | .iterations body, r => m.iterations n body r
  | .expression head least, r => (m.expression n head least r).map ([·])
  | .climb head least left, r => (m.climb n head least left r).map ([·])
  | .operand head, r => (m.operand n head r).map ([·])

/-- **An attempt** at a goal from a run, and how it ends. -/
inductive Attempt (m : Matcher K α) :
    Goal K α → Run K → Outcome K (List (Tree K α)) → Prop
  /-- A name that is not declared matches nothing. -/
  | undeclared {x : String} {r : Run K} :
      m.grammar.get? x = none →
      Attempt m (.name x) r (.failed (r.enter x).reach)
  /-- A head is matched as an expression. -/
  | head {x : String} {n : NonTerminal K α} {r : Run K}
      {o : Outcome K (List (Tree K α))} :
      m.grammar.get? x = some n → n.isHead = true →
      Attempt m (.expression n 0) (r.enter x) o → Attempt m (.name x) r o
  /-- Any other non-terminal is matched by its rules. -/
  | plain {x : String} {n : NonTerminal K α} {r : Run K}
      {o : Outcome K (List (Tree K α))} :
      m.grammar.get? x = some n → n.isHead = false →
      Attempt m (.rules n n.rules) (r.enter x) o → Attempt m (.name x) r o
  /-- No rule is left. -/
  | noRule {n : NonTerminal K α} {r : Run K} :
      Attempt m (.rules n []) r (.failed r)
  /-- The first rule matches. -/
  | rule {n : NonTerminal K α} {rule : Rule K α} {rules : List (Rule K α)}
      {r r' : Run K} {ts : List (Tree K α)} :
      Attempt m (.sequence rule.clauses) r (.matched ts r') →
      Attempt m (.rules n (rule :: rules)) r (.matched [ruleTree n rule ts] r')
  /-- The first rule fails, and the others are tried from the same index. -/
  | nextRule {n : NonTerminal K α} {rule : Rule K α} {rules : List (Rule K α)}
      {r r' : Run K} {o : Outcome K (List (Tree K α))} :
      Attempt m (.sequence rule.clauses) r (.failed r') →
      Attempt m (.rules n rules) (r'.restore r.index) o →
      Attempt m (.rules n (rule :: rules)) r o
  /-- No clause is left. -/
  | done {r : Run K} : Attempt m (.sequence []) r (.matched [] r)
  /-- The first clause fails. -/
  | stuck {c : Clause K} {cs : List (Clause K)} {r r' : Run K} :
      Attempt m (.clause c) r (.failed r') →
      Attempt m (.sequence (c :: cs)) r (.failed r')
  /-- The first clause matches, and the others follow. -/
  | andThen {c : Clause K} {cs : List (Clause K)} {r r' : Run K}
      {ts : List (Tree K α)} {o : Outcome K (List (Tree K α))} :
      Attempt m (.clause c) r (.matched ts r') →
      Attempt m (.sequence cs) r' o →
      Attempt m (.sequence (c :: cs)) r (o.map (ts ++ ·))
  /-- The style does not know the clause. -/
  | refused {c : Clause K} {r : Run K} :
      m.style.allows c = false →
      Attempt m (.clause c) r (.failed r.reach)
  /-- The next token is of the kind. -/
  | token {k : K} {d : Bool} {r : Run K} {t : Token K} :
      m.tokens.get? r.index = some t → t.kind = k →
      Attempt m (.clause (.token k d)) r (.matched [.leaf t d] r.advance)
  /-- The next token, if there is one, is of another kind. -/
  | noToken {k : K} {d : Bool} {r : Run K} :
      (∀ t, m.tokens.get? r.index = some t → t.kind ≠ k) →
      Attempt m (.clause (.token k d)) r (.failed (r.expect k))
  /-- A reference gives the tree of its name, marked as it is. -/
  | reference {x : String} {d : Bool} {r : Run K}
      {o : Outcome K (List (Tree K α))} :
      Attempt m (.name x) r o →
      Attempt m (.clause (.reference x d)) r (o.map (·.map (·.setDiscarded d)))
  /-- A group is its members. -/
  | group {cs : List (Clause K)} {r : Run K} {o : Outcome K (List (Tree K α))} :
      m.style.allows (.group cs) = true →
      Attempt m (.sequence cs) r o → Attempt m (.clause (.group cs)) r o
  /-- A choice is the first of its branches that matches. -/
  | choice {bs : List (Clause K)} {r : Run K}
      {o : Outcome K (List (Tree K α))} :
      m.style.allows (.choice bs) = true →
      Attempt m (.choice bs) r o → Attempt m (.clause (.choice bs)) r o
  /-- The body of an option matches. -/
  | optional {b : Clause K} {r r' : Run K} {ts : List (Tree K α)} :
      m.style.allows (.optional b) = true →
      Attempt m (.clause b) r (.matched ts r') →
      Attempt m (.clause (.optional b)) r
        (.matched [clauseTree (.optional b) .optional ts] r')
  /-- The body of an option fails, and the option matches nothing. -/
  | optionalNone {b : Clause K} {r r' : Run K} :
      m.style.allows (.optional b) = true →
      Attempt m (.clause b) r (.failed r') →
      Attempt m (.clause (.optional b)) r
        (.matched [clauseTree (.optional b) .optional []] (r'.restore r.index))
  /-- A repetition is its iterations. -/
  | star {b : Clause K} {r : Run K} {o : Outcome K (List (Tree K α))} :
      m.style.allows (.star b) = true →
      Attempt m (.iterations b) r o →
      Attempt m (.clause (.star b)) r
        (o.map fun ts => [clauseTree (.star b) .many ts])
  /-- The first iteration of a repetition that needs one fails. -/
  | plusNone {b : Clause K} {r r' : Run K} :
      m.style.allows (.plus b) = true →
      Attempt m (.clause b) r (.failed r') →
      Attempt m (.clause (.plus b)) r (.failed r')
  /-- The first iteration of a repetition matches, and others may follow. -/
  | plus {b : Clause K} {r r' : Run K} {ts : List (Tree K α)}
      {o : Outcome K (List (Tree K α))} :
      m.style.allows (.plus b) = true →
      Attempt m (.clause b) r (.matched ts r') →
      Attempt m (.iterations b) r' o →
      Attempt m (.clause (.plus b)) r
        (o.map fun us => [clauseTree (.plus b) .many (ts ++ us)])
  /-- No branch is left. -/
  | noBranch {r : Run K} : Attempt m (.choice []) r (.failed r)
  /-- The first branch matches. -/
  | branch {b : Clause K} {bs : List (Clause K)} {r r' : Run K}
      {ts : List (Tree K α)} :
      Attempt m (.clause b) r (.matched ts r') →
      Attempt m (.choice (b :: bs)) r (.matched ts r')
  /-- The first branch fails, and the others are tried from the same index. -/
  | nextBranch {b : Clause K} {bs : List (Clause K)} {r r' : Run K}
      {o : Outcome K (List (Tree K α))} :
      Attempt m (.clause b) r (.failed r') →
      Attempt m (.choice bs) (r'.restore r.index) o →
      Attempt m (.choice (b :: bs)) r o
  /-- An iteration fails, and is dropped. -/
  | stop {b : Clause K} {r r' : Run K} :
      Attempt m (.clause b) r (.failed r') →
      Attempt m (.iterations b) r (.matched [] (r'.restore r.index))
  /-- An iteration takes no token, and is dropped. -/
  | still {b : Clause K} {r r' : Run K} {ts : List (Tree K α)} :
      Attempt m (.clause b) r (.matched ts r') → ¬ r.index < r'.index →
      Attempt m (.iterations b) r (.matched [] (r'.restore r.index))
  /-- An iteration takes tokens, and others may follow. -/
  | again {b : Clause K} {r r' : Run K} {ts : List (Tree K α)}
      {o : Outcome K (List (Tree K α))} :
      Attempt m (.clause b) r (.matched ts r') → r.index < r'.index →
      Attempt m (.iterations b) r' o →
      Attempt m (.iterations b) r (o.map (ts ++ ·))
  /-- There is no operand. -/
  | noOperand {n : NonTerminal K α} {least : Nat} {r r' : Run K} :
      Attempt m (.operand n) r (.failed r') →
      Attempt m (.expression n least) r (.failed r')
  /-- There is an operand, and operators may follow. -/
  | fromOperand {n : NonTerminal K α} {least : Nat} {r r' : Run K}
      {left : Tree K α} {o : Outcome K (List (Tree K α))} :
      Attempt m (.operand n) r (.matched [left] r') →
      Attempt m (.climb n least left) r' o →
      Attempt m (.expression n least) r o
  /-- No operator follows that binds tightly enough. -/
  | noOperator {n : NonTerminal K α} {least : Nat} {left : Tree K α}
      {r : Run K} :
      m.trailing? n least r = none →
      Attempt m (.climb n least left) r
        (.matched [left] (r.expectAll (n.trailingKinds least)))
  /-- An operator with no right operand follows. -/
  | postfixed {n : NonTerminal K α} {least : Nat} {left : Tree K α}
      {r : Run K} {t : Token K} {op : Operator K α} {p : UInt32}
      {o : Outcome K (List (Tree K α))} :
      m.trailing? n least r = some (t, op) → op.operation = .postfixOp p →
      Attempt m (.climb n least (operatorTree n op [left, .leaf t false]))
        r.advance o →
      Attempt m (.climb n least left) r o
  /-- An operator follows that finds no right operand, and is left alone. -/
  | noRight {n : NonTerminal K α} {least : Nat} {left : Tree K α}
      {r r' : Run K} {t : Token K} {op : Operator K α} {p : UInt32}
      {a : Associativity} :
      m.trailing? n least r = some (t, op) → op.operation = .infixOp p a →
      Attempt m (.expression n op.operation.threshold) r.advance (.failed r') →
      Attempt m (.climb n least left) r (.matched [left] (r'.restore r.index))
  /-- An operator and its right operand follow. -/
  | infixed {n : NonTerminal K α} {least : Nat} {left right : Tree K α}
      {r r' : Run K} {t : Token K} {op : Operator K α} {p : UInt32}
      {a : Associativity} {o : Outcome K (List (Tree K α))} :
      m.trailing? n least r = some (t, op) → op.operation = .infixOp p a →
      Attempt m (.expression n op.operation.threshold) r.advance
        (.matched [right] r') →
      Attempt m (.climb n least
        (operatorTree n op [left, .leaf t false, right])) r' o →
      Attempt m (.climb n least left) r o
  /-- No operator stands here, and the operand is a rule's. -/
  | noPrefix {n : NonTerminal K α} {r : Run K}
      {o : Outcome K (List (Tree K α))} :
      m.leading? n r = none →
      Attempt m (.rules n n.rules) (r.expectAll n.leadingKinds) o →
      Attempt m (.operand n) r o
  /-- An operator stands here, and its operand follows. -/
  | prefixed {n : NonTerminal K α} {r r' : Run K} {t : Token K}
      {op : Operator K α} {right : Tree K α} :
      m.leading? n r = some (t, op) →
      Attempt m (.expression n op.precedence) r.advance (.matched [right] r') →
      Attempt m (.operand n) r
        (.matched [operatorTree n op [.leaf t false, right]] r')
  /-- An operator stands here that finds no operand, and the rules are tried
  instead. -/
  | prefixNone {n : NonTerminal K α} {r r' : Run K} {t : Token K}
      {op : Operator K α} {o : Outcome K (List (Tree K α))} :
      m.leading? n r = some (t, op) →
      Attempt m (.expression n op.precedence) r.advance (.failed r') →
      Attempt m (.rules n n.rules)
        ((r'.restore r.index).expectAll n.leadingKinds) o →
      Attempt m (.operand n) r o

/-! ## Which operators are found -/

omit [TokenKind K] in
/-- What is found before an operand: the next token, and the first operator of
its kind that stands there. -/
theorem leading?_eq_some_iff {head : NonTerminal K α} {r : Run K} {t : Token K}
    {op : Operator K α} :
    m.leading? head r = some (t, op) ↔
      m.tokens.get? r.index = some t ∧ head.leadingOperator? t.kind = some op := by
  simp only [leading?, Option.bind_eq_bind, Option.pure_def,
    Option.bind_eq_some_iff, Option.some.injEq, Prod.mk.injEq]
  constructor
  · rintro ⟨_, ht, _, hop, rfl, rfl⟩
    exact ⟨ht, hop⟩
  · rintro ⟨ht, hop⟩
    exact ⟨t, ht, op, hop, rfl, rfl⟩

omit [TokenKind K] in
/-- What is found after an operand: the next token, and the first operator of
its kind that stands there, if it binds tightly enough. -/
theorem trailing?_eq_some_iff {head : NonTerminal K α} {least : Nat} {r : Run K}
    {t : Token K} {op : Operator K α} :
    m.trailing? head least r = some (t, op) ↔
      m.tokens.get? r.index = some t ∧ head.trailingOperator? t.kind = some op ∧
        least ≤ op.precedence := by
  simp only [trailing?, Option.bind_eq_bind, Option.bind_eq_some_iff]
  constructor
  · rintro ⟨t', ht, op', hop, h⟩
    split at h
    · next hle =>
      obtain ⟨rfl, rfl⟩ : t' = t ∧ op' = op := by simpa using h
      exact ⟨ht, hop, hle⟩
    · cases h
  · rintro ⟨ht, hop, hle⟩
    exact ⟨t, ht, op, hop, if_pos hle⟩

omit [TokenKind K] in
/-- An operator found after an operand does not stand before one. -/
theorem isTrailing_of_trailing? {head : NonTerminal K α} {least : Nat}
    {r : Run K} {t : Token K} {op : Operator K α}
    (h : m.trailing? head least r = some (t, op)) :
    op.operation.isTrailing = true := by
  exact (NonTerminal.of_trailingOperator? (trailing?_eq_some_iff.mp h).2.1).2.2

namespace Attempt

variable {goal : Goal K α} {r : Run K} {o : Outcome K (List (Tree K α))}

/-- **An attempt ends.** -/
theorem ne_exhausted (h : m.Attempt goal r o) : o ≠ .exhausted := by
  induction h with
  | andThen _ _ _ ih | reference _ ih | star _ _ ih | plus _ _ _ _ ih
  | again _ _ _ _ ih => simpa using ih
  | head _ _ _ ih | plain _ _ _ ih | nextRule _ _ _ ih | group _ _ ih
  | choice _ _ ih | nextBranch _ _ _ ih | fromOperand _ _ _ ih
  | postfixed _ _ _ ih | infixed _ _ _ _ _ ih | noPrefix _ _ ih
  | prefixNone _ _ _ _ ih => exact ih
  | undeclared | noRule | stuck | refused | noToken | plusNone | noBranch
  | noOperand => exact Outcome.failed_ne_exhausted _
  | rule | done | token | optional | optionalNone | branch | stop | still
  | noOperator | noRight | prefixed => exact Outcome.matched_ne_exhausted _ _

end Attempt

/-! ## What the functions answer is how an attempt ends -/

/-- **The answers within a budget are ends of attempts.** -/
def Explains (m : Matcher K α) (n : Nat) : Prop :=
  ∀ goal r o, m.outcome n goal r = o → o ≠ .exhausted → m.Attempt goal r o

section Explains

variable {n : Nat}

theorem Explains.failed (ih : m.Explains n) {goal : Goal K α} {r r' : Run K}
    (h : m.outcome n goal r = .failed r') : m.Attempt goal r (.failed r') :=
  ih goal r _ h (Outcome.failed_ne_exhausted r')

theorem Explains.matched (ih : m.Explains n) {goal : Goal K α} {r r' : Run K}
    {ts : List (Tree K α)} (h : m.outcome n goal r = .matched ts r') :
    m.Attempt goal r (.matched ts r') :=
  ih goal r _ h (Outcome.matched_ne_exhausted ts r')

theorem Explains.name (ih : m.Explains n) {x : String} {r : Run K}
    {o : Outcome K (List (Tree K α))} (h : m.outcome (n + 1) (.name x) r = o)
    (ho : o ≠ .exhausted) : m.Attempt (.name x) r o := by
  rw [outcome, nonTerminal] at h
  split at h
  · next hx =>
    subst h
    exact .undeclared hx
  · next head hx =>
    split at h
    · next hh => exact .head hx hh (ih (.expression head 0) _ o h ho)
    · next hh =>
      exact .plain hx (by simpa using hh) (ih (.rules head head.rules) _ o h ho)

theorem Explains.rules (ih : m.Explains n) {head : NonTerminal K α}
    {rules : List (Rule K α)} {r : Run K} {o : Outcome K (List (Tree K α))}
    (h : m.outcome (n + 1) (.rules head rules) r = o) (ho : o ≠ .exhausted) :
    m.Attempt (.rules head rules) r o := by
  cases rules with
  | nil =>
    subst h
    exact .noRule
  | cons rule rules =>
    rw [outcome, alternatives] at h
    cases hs : m.sequence n rule.clauses r with
    | exhausted =>
      rw [hs] at h
      exact absurd h.symm ho
    | failed r' =>
      rw [hs] at h
      exact .nextRule (ih.failed hs)
        (ih (.rules head rules) _ o h ho)
    | matched ts r' =>
      rw [hs] at h
      subst h
      exact .rule (ih.matched hs)

theorem Explains.sequence (ih : m.Explains n) {cs : List (Clause K)} {r : Run K}
    {o : Outcome K (List (Tree K α))} (h : m.outcome (n + 1) (.sequence cs) r = o)
    (ho : o ≠ .exhausted) : m.Attempt (.sequence cs) r o := by
  cases cs with
  | nil =>
    subst h
    exact .done
  | cons c cs =>
    rw [outcome, Matcher.sequence] at h
    cases hc : m.clause n c r with
    | exhausted =>
      rw [hc] at h
      exact absurd h.symm ho
    | failed r' =>
      rw [hc] at h
      subst h
      exact .stuck (ih.failed hc)
    | matched ts r' =>
      rw [hc, Outcome.bind_matched] at h
      subst h
      exact .andThen (ih.matched hc)
        (ih (.sequence cs) r' _ rfl (by simpa using ho))

/-- A clause that the style does not know fails. -/
theorem clause_refused {c : Clause K} (h : m.style.allows c = false)
    (r : Run K) : m.clause (n + 1) c r = .failed r.reach := by
  unfold Matcher.clause
  rw [if_neg (by simp [h])]

theorem Explains.clause (ih : m.Explains n) {c : Clause K} {r : Run K}
    {o : Outcome K (List (Tree K α))} (h : m.outcome (n + 1) (.clause c) r = o)
    (ho : o ≠ .exhausted) : m.Attempt (.clause c) r o := by
  cases ha : m.style.allows c with
  | false =>
    rw [outcome, clause_refused ha] at h
    subst h
    exact .refused ha
  | true =>
    cases c with
    | token k d =>
      rw [outcome, Matcher.clause, if_pos ha, Matcher.token] at h
      split at h
      · next t ht =>
        split at h
        · next hk =>
          subst h
          exact .token ht hk
        · next hk =>
          subst h
          exact .noToken fun t' ht' => by
            rw [ht, Option.some.injEq] at ht'
            exact ht' ▸ hk
      · next ht =>
        subst h
        exact .noToken fun t' ht' => by
          rw [ht] at ht'
          cases ht'
    | reference x d =>
      rw [outcome, Matcher.clause, if_pos ha] at h
      cases hn : m.nonTerminal n x r with
      | exhausted =>
        rw [hn] at h
        exact absurd h.symm ho
      | failed r' =>
        rw [hn] at h
        subst h
        exact .reference (ih.failed (by rw [outcome, hn, Outcome.map_failed]))
      | matched t r' =>
        rw [hn] at h
        subst h
        exact .reference (ih.matched (by rw [outcome, hn, Outcome.map_matched]))
    | group cs =>
      rw [outcome, Matcher.clause, if_pos ha] at h
      exact .group ha (ih (.sequence cs) r o h ho)
    | choice bs =>
      rw [outcome, Matcher.clause, if_pos ha] at h
      exact .choice ha (ih (.choice bs) r o h ho)
    | optional b =>
      rw [outcome, Matcher.clause, if_pos ha] at h
      cases hb : m.clause n b r with
      | exhausted =>
        rw [hb] at h
        exact absurd h.symm ho
      | failed r' =>
        rw [hb] at h
        subst h
        exact .optionalNone ha (ih.failed hb)
      | matched ts r' =>
        rw [hb] at h
        subst h
        exact .optional ha (ih.matched hb)
    | star b =>
      rw [outcome, Matcher.clause, if_pos ha] at h
      subst h
      exact .star ha (ih (.iterations b) r _ rfl (by simpa using ho))
    | plus b =>
      rw [outcome, Matcher.clause, if_pos ha] at h
      cases hb : m.clause n b r with
      | exhausted =>
        rw [hb] at h
        exact absurd h.symm ho
      | failed r' =>
        rw [hb] at h
        subst h
        exact .plusNone ha (ih.failed hb)
      | matched ts r' =>
        rw [hb, Outcome.bind_matched] at h
        subst h
        exact .plus ha (ih.matched hb)
          (ih (.iterations b) r' _ rfl (by simpa using ho))

theorem Explains.choice (ih : m.Explains n) {bs : List (Clause K)} {r : Run K}
    {o : Outcome K (List (Tree K α))} (h : m.outcome (n + 1) (.choice bs) r = o)
    (ho : o ≠ .exhausted) : m.Attempt (.choice bs) r o := by
  cases bs with
  | nil =>
    subst h
    exact .noBranch
  | cons b bs =>
    rw [outcome, Matcher.choice] at h
    cases hb : m.clause n b r with
    | exhausted =>
      rw [hb] at h
      exact absurd h.symm ho
    | failed r' =>
      rw [hb] at h
      exact .nextBranch (ih.failed hb) (ih (.choice bs) _ o h ho)
    | matched ts r' =>
      rw [hb] at h
      subst h
      exact .branch (ih.matched hb)

theorem Explains.iterations (ih : m.Explains n) {b : Clause K} {r : Run K}
    {o : Outcome K (List (Tree K α))}
    (h : m.outcome (n + 1) (.iterations b) r = o) (ho : o ≠ .exhausted) :
    m.Attempt (.iterations b) r o := by
  rw [outcome, Matcher.iterations] at h
  cases hb : m.clause n b r with
  | exhausted =>
    rw [hb] at h
    exact absurd h.symm ho
  | failed r' =>
    rw [hb] at h
    subst h
    exact .stop (ih.failed hb)
  | matched ts r' =>
    simp only [hb] at h
    split at h
    · next hlt =>
      subst h
      exact .again (ih.matched hb) hlt
        (ih (.iterations b) r' _ rfl (by simpa using ho))
    · next hlt =>
      subst h
      exact .still (ih.matched hb) hlt

theorem Explains.expression (ih : m.Explains n) {head : NonTerminal K α}
    {least : Nat} {r : Run K} {o : Outcome K (List (Tree K α))}
    (h : m.outcome (n + 1) (.expression head least) r = o)
    (ho : o ≠ .exhausted) : m.Attempt (.expression head least) r o := by
  rw [outcome, Matcher.expression] at h
  cases hl : m.operand n head r with
  | exhausted =>
    rw [hl] at h
    exact absurd h.symm ho
  | failed r' =>
    rw [hl] at h
    subst h
    exact .noOperand (ih.failed (by rw [outcome, hl, Outcome.map_failed]))
  | matched left r' =>
    rw [hl] at h
    exact .fromOperand (ih.matched (by rw [outcome, hl, Outcome.map_matched]))
      (ih (.climb head least left) r' o h ho)

theorem Explains.climb (ih : m.Explains n) {head : NonTerminal K α}
    {least : Nat} {left : Tree K α} {r : Run K}
    {o : Outcome K (List (Tree K α))}
    (h : m.outcome (n + 1) (.climb head least left) r = o)
    (ho : o ≠ .exhausted) : m.Attempt (.climb head least left) r o := by
  rw [outcome, Matcher.climb] at h
  split at h
  · next ht =>
    subst h
    exact .noOperator ht
  · next t op ht =>
    split at h
    · next p hp => exact .postfixed ht hp (ih (.climb head least _) _ o h ho)
    · next p a hp =>
      split at h
      · exact absurd h.symm ho
      · next r' hr =>
        subst h
        exact .noRight ht hp
          (ih.failed (by rw [outcome, hr, Outcome.map_failed]))
      · next right r' hr =>
        exact .infixed ht hp
          (ih.matched (by rw [outcome, hr, Outcome.map_matched]))
          (ih (.climb head least _) r' o h ho)
    · next p hp =>
      have := isTrailing_of_trailing? ht
      rw [hp] at this
      cases this

theorem Explains.operand (ih : m.Explains n) {head : NonTerminal K α}
    {r : Run K} {o : Outcome K (List (Tree K α))}
    (h : m.outcome (n + 1) (.operand head) r = o) (ho : o ≠ .exhausted) :
    m.Attempt (.operand head) r o := by
  rw [outcome, Matcher.operand] at h
  split at h
  · next ht =>
    exact .noPrefix ht (ih (.rules head head.rules) _ o h ho)
  · next t op ht =>
    cases hr : m.expression n head op.precedence r.advance with
    | exhausted =>
      rw [hr] at h
      exact absurd h.symm ho
    | failed r' =>
      rw [hr] at h
      exact .prefixNone ht
        (ih.failed (by rw [outcome, hr, Outcome.map_failed]))
        (ih (.rules head head.rules) _ o h ho)
    | matched right r' =>
      rw [hr] at h
      subst h
      exact .prefixed ht
        (ih.matched (by rw [outcome, hr, Outcome.map_matched]))

end Explains

theorem explains (m : Matcher K α) (n : Nat) : m.Explains n := by
  induction n with
  | zero =>
    intro goal r o h ho
    cases goal <;> exact absurd h.symm ho
  | succ n ih =>
    intro goal r o h ho
    cases goal with
    | name x => exact ih.name h ho
    | rules head rules => exact ih.rules h ho
    | sequence cs => exact ih.sequence h ho
    | clause c => exact ih.clause h ho
    | choice bs => exact ih.choice h ho
    | iterations b => exact ih.iterations h ho
    | expression head least => exact ih.expression h ho
    | climb head least left => exact ih.climb h ho
    | operand head => exact ih.operand h ho

/-- **Whatever the functions answer within a budget is the end of an
attempt.** -/
theorem attempt_of_outcome {n : Nat} {goal : Goal K α} {r : Run K}
    {o : Outcome K (List (Tree K α))} (h : m.outcome n goal r = o)
    (ho : o ≠ .exhausted) : m.Attempt goal r o :=
  explains m n goal r o h ho

/-- A failure that the functions answer is the end of an attempt. -/
theorem attempt_of_failed {n : Nat} {goal : Goal K α} {r r' : Run K}
    (h : m.outcome n goal r = .failed r') : m.Attempt goal r (.failed r') :=
  (explains m n).failed h

/-- A match that the functions answer is the end of an attempt. -/
theorem attempt_of_matched {n : Nat} {goal : Goal K α} {r r' : Run K}
    {ts : List (Tree K α)} (h : m.outcome n goal r = .matched ts r') :
    m.Attempt goal r (.matched ts r') :=
  (explains m n).matched h

section NonTerminal

variable {n : Nat} {x : String} {r r' : Run K}

theorem attempt_of_nonTerminal_failed (h : m.nonTerminal n x r = .failed r') :
    m.Attempt (.name x) r (.failed r') :=
  attempt_of_failed (n := n) (by rw [outcome, h, Outcome.map_failed])

theorem attempt_of_nonTerminal_matched {tree : Tree K α}
    (h : m.nonTerminal n x r = .matched tree r') :
    m.Attempt (.name x) r (.matched [tree] r') :=
  attempt_of_matched (n := n) (by rw [outcome, h, Outcome.map_matched])

end NonTerminal

/-- **There is one way an attempt ends**, so all budgets that suffice give one
answer. -/
theorem Attempt.unique {goal : Goal K α} {r : Run K}
    {o o' : Outcome K (List (Tree K α))} (h : m.Attempt goal r o)
    (h' : m.Attempt goal r o') : o = o' := by
  -- two rules for one goal differ in what they ask of their first part, of which
  -- there is one end by induction, or of the token that stands there
  induction h generalizing o' with
  | _ => cases h' <;> grind [Style.allows_token, Style.allows_reference]

end Matcher

end Descent
