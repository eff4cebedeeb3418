import Descent.Proofs.Matching.Derivation

/-!
# What a grammar means at the head of some tokens

`Grammar.Peg` says what a goal comes to at the head of some tokens, as one says
it of parsing expression grammars: which trees it gives and which tokens are left
after it, or that it fails. There is no index in it, nothing is gone back to and
nothing is undone; what stands before a match is only ever asked whether it
fails.

The matcher computes this meaning. Whatever an attempt ends in is what its goal
means where the attempt was begun (`Attempt.peg`). A goal means one thing at most
at given tokens (`Peg.unique`), and without left recursion every attempt ends; so
the matcher answers exactly what is meant (`Matcher.nonTerminal_iff_peg`).
-/

namespace Descent

variable {K α : Type}

namespace Grammar

open Matcher (ruleTree operatorTree clauseTree)

/-- **What a goal means at the head of some tokens**, in a style of matching: the
trees that it gives, with the tokens left after it, or failure. -/
inductive Peg [DecidableEq K] [TokenKind K] (g : Grammar K α) (s : Style) :
    Goal K α → List (Token K) → Option (List (Tree K α) × List (Token K)) → Prop
  /-- A name that is not declared fails. -/
  | undeclared {x : String} {ts : List (Token K)} :
      g.get? x = none → Peg g s (.name x) ts none
  /-- A head is an expression, with operators however loosely they bind. -/
  | head {x : String} {n : NonTerminal K α} {ts : List (Token K)}
      {a : Option (List (Tree K α) × List (Token K))} :
      g.get? x = some n → n.isHead = true →
      Peg g s (.expression n 0) ts a → Peg g s (.name x) ts a
  /-- Any other non-terminal is one of its rules. -/
  | plain {x : String} {n : NonTerminal K α} {ts : List (Token K)}
      {a : Option (List (Tree K α) × List (Token K))} :
      g.get? x = some n → n.isHead = false →
      Peg g s (.rules n n.rules) ts a → Peg g s (.name x) ts a
  /-- The first rule that matches wins: all before it fail at the same
  tokens. -/
  | rule {n : NonTerminal K α} {rules before after : List (Rule K α)}
      {rule : Rule K α} {ts rest : List (Token K)} {us : List (Tree K α)} :
      rules = before ++ rule :: after →
      (∀ earlier ∈ before, Peg g s (.sequence earlier.clauses) ts none) →
      Peg g s (.sequence rule.clauses) ts (some (us, rest)) →
      Peg g s (.rules n rules) ts (some ([ruleTree n rule us], rest))
  /-- All rules fail. -/
  | noRule {n : NonTerminal K α} {rules : List (Rule K α)}
      {ts : List (Token K)} :
      (∀ rule ∈ rules, Peg g s (.sequence rule.clauses) ts none) →
      Peg g s (.rules n rules) ts none
  /-- No clause takes no token. -/
  | done {ts : List (Token K)} : Peg g s (.sequence []) ts (some ([], ts))
  /-- A clause, and the others at the tokens after it. -/
  | andThen {c : Clause K} {cs : List (Clause K)} {ts mid rest : List (Token K)}
      {us vs : List (Tree K α)} :
      Peg g s (.clause c) ts (some (us, mid)) →
      Peg g s (.sequence cs) mid (some (vs, rest)) →
      Peg g s (.sequence (c :: cs)) ts (some (us ++ vs, rest))
  /-- The first clause fails. -/
  | stuck {c : Clause K} {cs : List (Clause K)} {ts : List (Token K)} :
      Peg g s (.clause c) ts none → Peg g s (.sequence (c :: cs)) ts none
  /-- The others fail, and the first clause is not tried a second way. -/
  | stuckAfter {c : Clause K} {cs : List (Clause K)} {ts mid : List (Token K)}
      {us : List (Tree K α)} :
      Peg g s (.clause c) ts (some (us, mid)) →
      Peg g s (.sequence cs) mid none → Peg g s (.sequence (c :: cs)) ts none
  /-- The style does not know the clause. -/
  | refused {c : Clause K} {ts : List (Token K)} :
      s.allows c = false → Peg g s (.clause c) ts none
  /-- A token of the kind stands first. -/
  | token {k : K} {d : Bool} {t : Token K} {ts : List (Token K)} :
      t.kind = k → Peg g s (.clause (.token k d)) (t :: ts) (some ([.leaf t d], ts))
  /-- No token of the kind stands first. -/
  | noToken {k : K} {d : Bool} {ts : List (Token K)} :
      (∀ t, ts.head? = some t → t.kind ≠ k) →
      Peg g s (.clause (.token k d)) ts none
  /-- A reference gives the tree of its name, marked as it is. -/
  | reference {x : String} {d : Bool} {ts rest : List (Token K)}
      {us : List (Tree K α)} :
      Peg g s (.name x) ts (some (us, rest)) →
      Peg g s (.clause (.reference x d)) ts
        (some (us.map (·.setDiscarded d), rest))
  /-- A reference fails with its name. -/
  | noReference {x : String} {d : Bool} {ts : List (Token K)} :
      Peg g s (.name x) ts none → Peg g s (.clause (.reference x d)) ts none
  /-- A group is its members. -/
  | group {cs : List (Clause K)} {ts : List (Token K)}
      {a : Option (List (Tree K α) × List (Token K))} :
      s.allows (.group cs) = true →
      Peg g s (.sequence cs) ts a → Peg g s (.clause (.group cs)) ts a
  /-- A choice is one of its branches. -/
  | choice {bs : List (Clause K)} {ts : List (Token K)}
      {a : Option (List (Tree K α) × List (Token K))} :
      s.allows (.choice bs) = true →
      Peg g s (.choice bs) ts a → Peg g s (.clause (.choice bs)) ts a
  /-- The body of an option matches, and then the option is not empty. -/
  | optional {b : Clause K} {ts rest : List (Token K)} {us : List (Tree K α)} :
      s.allows (.optional b) = true →
      Peg g s (.clause b) ts (some (us, rest)) →
      Peg g s (.clause (.optional b)) ts
        (some ([clauseTree (.optional b) .optional us], rest))
  /-- The body of an option fails. -/
  | optionalNone {b : Clause K} {ts : List (Token K)} :
      s.allows (.optional b) = true →
      Peg g s (.clause b) ts none →
      Peg g s (.clause (.optional b)) ts
        (some ([clauseTree (.optional b) .optional []], ts))
  /-- A repetition is its iterations. -/
  | star {b : Clause K} {ts rest : List (Token K)} {us : List (Tree K α)} :
      s.allows (.star b) = true →
      Peg g s (.iterations b) ts (some (us, rest)) →
      Peg g s (.clause (.star b)) ts
        (some ([clauseTree (.star b) .many us], rest))
  /-- A repetition that needs an iteration has a first one, which need not take
  a token, and others after it. -/
  | plus {b : Clause K} {ts mid rest : List (Token K)} {us vs : List (Tree K α)} :
      s.allows (.plus b) = true →
      Peg g s (.clause b) ts (some (us, mid)) →
      Peg g s (.iterations b) mid (some (vs, rest)) →
      Peg g s (.clause (.plus b)) ts
        (some ([clauseTree (.plus b) .many (us ++ vs)], rest))
  /-- The first iteration of a repetition that needs one fails. -/
  | plusNone {b : Clause K} {ts : List (Token K)} :
      s.allows (.plus b) = true →
      Peg g s (.clause b) ts none → Peg g s (.clause (.plus b)) ts none
  /-- The first branch that matches wins: all before it fail at the same
  tokens. -/
  | branch {bs before after : List (Clause K)} {b : Clause K}
      {ts rest : List (Token K)} {us : List (Tree K α)} :
      bs = before ++ b :: after →
      (∀ earlier ∈ before, Peg g s (.clause earlier) ts none) →
      Peg g s (.clause b) ts (some (us, rest)) →
      Peg g s (.choice bs) ts (some (us, rest))
  /-- All branches fail. -/
  | noBranch {bs : List (Clause K)} {ts : List (Token K)} :
      (∀ b ∈ bs, Peg g s (.clause b) ts none) → Peg g s (.choice bs) ts none
  /-- The iterations end where the body fails. -/
  | stop {b : Clause K} {ts : List (Token K)} :
      Peg g s (.clause b) ts none → Peg g s (.iterations b) ts (some ([], ts))
  /-- The iterations end where the body takes no token; what it matched is
  dropped. -/
  | still {b : Clause K} {ts : List (Token K)} {us : List (Tree K α)} :
      Peg g s (.clause b) ts (some (us, ts)) →
      Peg g s (.iterations b) ts (some ([], ts))
  /-- The iterations go on where the body takes tokens. -/
  | again {b : Clause K} {ts mid rest : List (Token K)} {us vs : List (Tree K α)} :
      Peg g s (.clause b) ts (some (us, mid)) → mid.length < ts.length →
      Peg g s (.iterations b) mid (some (vs, rest)) →
      Peg g s (.iterations b) ts (some (us ++ vs, rest))
  /-- An expression fails with its operand. -/
  | noOperand {n : NonTerminal K α} {least : Nat} {ts : List (Token K)} :
      Peg g s (.operand n) ts none → Peg g s (.expression n least) ts none
  /-- An expression is an operand and the operators after it. -/
  | fromOperand {n : NonTerminal K α} {least : Nat} {ts mid : List (Token K)}
      {left : Tree K α} {a : Option (List (Tree K α) × List (Token K))} :
      Peg g s (.operand n) ts (some ([left], mid)) →
      Peg g s (.climb n least left) mid a → Peg g s (.expression n least) ts a
  /-- The expression ends where no operator follows that binds tightly
  enough. -/
  | noOperator {n : NonTerminal K α} {least : Nat} {left : Tree K α}
      {ts : List (Token K)} :
      (∀ t op, ts.head? = some t → n.trailingOperator? t.kind = some op →
        op.precedence < least) →
      Peg g s (.climb n least left) ts (some ([left], ts))
  /-- The expression ends where the operator that follows finds no right
  operand. -/
  | noRight {n : NonTerminal K α} {least : Nat} {left : Tree K α} {t : Token K}
      {ts : List (Token K)} {op : Operator K α} {p : UInt32}
      {a : Associativity} :
      n.trailingOperator? t.kind = some op → least ≤ op.precedence →
      op.operation = .infixOp p a →
      Peg g s (.expression n op.operation.threshold) ts none →
      Peg g s (.climb n least left) (t :: ts) (some ([left], t :: ts))
  /-- An operator follows, with its right operand. -/
  | infixed {n : NonTerminal K α} {least : Nat} {left right : Tree K α}
      {t : Token K} {ts mid : List (Token K)} {op : Operator K α} {p : UInt32}
      {d : Associativity} {a : Option (List (Tree K α) × List (Token K))} :
      n.trailingOperator? t.kind = some op → least ≤ op.precedence →
      op.operation = .infixOp p d →
      Peg g s (.expression n op.operation.threshold) ts (some ([right], mid)) →
      Peg g s (.climb n least
        (operatorTree n op [left, .leaf t false, right])) mid a →
      Peg g s (.climb n least left) (t :: ts) a
  /-- An operator with no right operand follows. -/
  | postfixed {n : NonTerminal K α} {least : Nat} {left : Tree K α} {t : Token K}
      {ts : List (Token K)} {op : Operator K α} {p : UInt32}
      {a : Option (List (Tree K α) × List (Token K))} :
      n.trailingOperator? t.kind = some op → least ≤ op.precedence →
      op.operation = .postfixOp p →
      Peg g s (.climb n least (operatorTree n op [left, .leaf t false])) ts a →
      Peg g s (.climb n least left) (t :: ts) a
  /-- An operator stands first, and its operand after it. -/
  | prefixed {n : NonTerminal K α} {t : Token K} {ts rest : List (Token K)}
      {op : Operator K α} {right : Tree K α} :
      n.leadingOperator? t.kind = some op →
      Peg g s (.expression n op.precedence) ts (some ([right], rest)) →
      Peg g s (.operand n) (t :: ts)
        (some ([operatorTree n op [.leaf t false, right]], rest))
  /-- An operator stands first that finds no operand, and the operand is one of
  the rules. -/
  | prefixNone {n : NonTerminal K α} {t : Token K} {ts : List (Token K)}
      {op : Operator K α} {a : Option (List (Tree K α) × List (Token K))} :
      n.leadingOperator? t.kind = some op →
      Peg g s (.expression n op.precedence) ts none →
      Peg g s (.rules n n.rules) (t :: ts) a → Peg g s (.operand n) (t :: ts) a
  /-- No operator stands first, and the operand is one of the rules. -/
  | noPrefix {n : NonTerminal K α} {ts : List (Token K)}
      {a : Option (List (Tree K α) × List (Token K))} :
      (∀ t, ts.head? = some t → n.leadingOperator? t.kind = none) →
      Peg g s (.rules n n.rules) ts a → Peg g s (.operand n) ts a

/-- A list is split in two ways at one element if neither split has the element
of the other before its own. -/
theorem eq_of_split {β : Type} {before before' after after' : List β} {x y : β}
    (h : before ++ x :: after = before' ++ y :: after') (hx : x ∉ before')
    (hy : y ∉ before) : x = y := by
  rcases List.append_eq_append_iff.mp h with ⟨mid, rfl, hmid⟩ | ⟨mid, rfl, hmid⟩
  · cases mid with
    | nil => exact (List.cons.inj hmid).1
    | cons z mid =>
      obtain rfl := (List.cons.inj hmid).1
      exact absurd (List.mem_append_right _ List.mem_cons_self) hx
  · cases mid with
    | nil => exact (List.cons.inj hmid).1.symm
    | cons z mid =>
      obtain rfl := (List.cons.inj hmid).1
      exact absurd (List.mem_append_right _ List.mem_cons_self) hy

variable [DecidableEq K] [TokenKind K] {g : Grammar K α} {s : Style}
  {goal : Goal K α} {ts : List (Token K)}
  {a b : Option (List (Tree K α) × List (Token K))}

/-- **A goal means one thing at most** at given tokens. -/
theorem Peg.unique (h : g.Peg s goal ts a) (h' : g.Peg s goal ts b) : a = b := by
  -- two rules for one goal differ in what they ask of a part, which means one
  -- thing by induction, or of the token that stands first
  induction h generalizing b with
  | @rule n rules before after rule ts rest us heq _ _ ihbefore ih =>
    cases h' with
    | @rule _ _ before' after' rule' _ _ _ heq' hbefore' hmatch' =>
      have hx : rule ∉ before' := fun hmem => by cases ih (hbefore' rule hmem)
      have hy : rule' ∉ before := fun hmem => by cases ihbefore rule' hmem hmatch'
      obtain rfl := eq_of_split (heq.symm.trans heq') hx hy
      cases ih hmatch'
      rfl
    | noRule hall =>
      have hmem : rule ∈ rules := heq ▸ List.mem_append_right _ List.mem_cons_self
      cases ih (hall rule hmem)
  | @noRule n rules ts _ ih =>
    cases h' with
    | @rule _ _ before' after' rule' _ _ _ heq' _ hmatch' =>
      have hmem : rule' ∈ rules := heq' ▸ List.mem_append_right _ List.mem_cons_self
      cases ih rule' hmem hmatch'
    | noRule => rfl
  | @branch bs before after b ts rest us heq _ _ ihbefore ih =>
    cases h' with
    | @branch _ before' after' b' _ _ _ heq' hbefore' hmatch' =>
      have hx : b ∉ before' := fun hmem => by cases ih (hbefore' b hmem)
      have hy : b' ∉ before := fun hmem => by cases ihbefore b' hmem hmatch'
      obtain rfl := eq_of_split (heq.symm.trans heq') hx hy
      exact ih hmatch'
    | noBranch hall =>
      have hmem : b ∈ bs := heq ▸ List.mem_append_right _ List.mem_cons_self
      cases ih (hall b hmem)
  | @noBranch bs ts _ ih =>
    cases h' with
    | @branch _ before' after' b' _ _ _ heq' _ hmatch' =>
      have hmem : b' ∈ bs := heq' ▸ List.mem_append_right _ List.mem_cons_self
      cases ih b' hmem hmatch'
    | noBranch => rfl
  | noToken | noOperator | noPrefix | infixed | postfixed | noRight | prefixed
  | prefixNone => cases h' <;> grind [List.head?_cons, Style.allows_token]
  | _ => cases h' <;> grind [Style.allows_token, Style.allows_reference]

/-- **A match takes tokens from the front**: what it leaves is an end of what
there was. -/
theorem Peg.suffix (h : g.Peg s goal ts a) : ∀ x ∈ a, x.2 <:+ ts := by
  induction h with
  | undeclared | noRule | stuck | stuckAfter | refused | noToken | noReference
  | plusNone | noBranch | noOperand => exact fun _ hx => by cases hx
  | head _ _ _ ih | plain _ _ _ ih | group _ _ ih | choice _ _ ih
  | noPrefix _ _ ih | prefixNone _ _ _ _ ih => exact ih
  | done | optionalNone | stop | still | noOperator | noRight =>
    rintro _ ⟨⟩
    exact List.suffix_rfl
  | token =>
    rintro _ ⟨⟩
    exact List.suffix_cons _ _
  | rule _ _ _ _ ih | branch _ _ _ _ ih | reference _ ih | optional _ _ ih
  | star _ _ ih =>
    rintro _ ⟨⟩
    have hrest := ih _ rfl
    exact hrest
  | andThen _ _ ih ih' | plus _ _ _ ih ih' | again _ _ _ ih ih' =>
    rintro _ ⟨⟩
    have hmid := ih _ rfl
    have hrest := ih' _ rfl
    exact hrest.trans hmid
  | fromOperand _ _ ih ih' => exact fun x hx => (ih' x hx).trans (ih _ rfl)
  | infixed _ _ _ _ _ ih ih' =>
    exact fun x hx =>
      ((ih' x hx).trans (ih _ rfl)).trans (List.suffix_cons _ _)
  | postfixed _ _ _ _ ih =>
    exact fun x hx => (ih x hx).trans (List.suffix_cons _ _)
  | prefixed _ _ ih =>
    rintro _ ⟨⟩
    have hrest := ih _ rfl
    exact hrest.trans (List.suffix_cons _ _)

/-- A rule that fails can stand before any others. -/
theorem Peg.after_rule {n : NonTerminal K α} {rule : Rule K α}
    {rules : List (Rule K α)} (hfail : g.Peg s (.sequence rule.clauses) ts none)
    (h : g.Peg s (.rules n rules) ts a) :
    g.Peg s (.rules n (rule :: rules)) ts a := by
  cases h with
  | rule heq hbefore hmatch =>
    exact .rule (congrArg (rule :: ·) heq)
      (List.forall_mem_cons.mpr ⟨hfail, hbefore⟩) hmatch
  | noRule hall => exact .noRule (List.forall_mem_cons.mpr ⟨hfail, hall⟩)

/-- A branch that fails can stand before any others. -/
theorem Peg.after_branch {b : Clause K} {bs : List (Clause K)}
    (hfail : g.Peg s (.clause b) ts none) (h : g.Peg s (.choice bs) ts a) :
    g.Peg s (.choice (b :: bs)) ts a := by
  cases h with
  | branch heq hbefore hmatch =>
    exact .branch (congrArg (b :: ·) heq)
      (List.forall_mem_cons.mpr ⟨hfail, hbefore⟩) hmatch
  | noBranch hall => exact .noBranch (List.forall_mem_cons.mpr ⟨hfail, hall⟩)

/-- A choice of tokens matches a token of one of their kinds. -/
theorem Peg.tokens {kinds : List K} {t : Token K} (h : t.kind ∈ kinds) :
    g.Peg s (.choice (kinds.map (.token · false))) (t :: ts)
      (some ([.leaf t false], ts)) := by
  induction kinds with
  | nil => exact absurd h List.not_mem_nil
  | cons k ks ih =>
    by_cases hk : t.kind = k
    · exact .branch (List.nil_append _).symm
        (fun _ h => absurd h List.not_mem_nil) (.token hk)
    · have hmem : t.kind ∈ ks := (List.mem_cons.mp h).resolve_left hk
      refine .after_branch (.noToken fun t' ht' => ?_) (ih hmem)
      obtain rfl := Option.some.inj ht'
      exact hk

/-- A choice of tokens fails before any other token, and at the end. -/
theorem Peg.noTokens {kinds : List K}
    (h : ∀ t, ts.head? = some t → t.kind ∉ kinds) :
    g.Peg s (.choice (kinds.map (.token · false))) ts none := by
  refine .noBranch (List.forall_mem_map.mpr fun k hk => ?_)
  exact .noToken fun t ht hkind => h t ht (hkind ▸ hk)

end Grammar

namespace Matcher

open Grammar (Peg)

/-- The tokens that are left to a run. -/
def rest (m : Matcher K α) (r : Run K) : List (Token K) :=
  m.tokens.toList.drop r.index

/-- **What an attempt has shown** once it has ended: what it gave and what it
left, or that its goal fails. -/
def shown (m : Matcher K α) :
    Outcome K (List (Tree K α)) → Option (List (Tree K α) × List (Token K))
  | .exhausted | .failed _ => none
  | .matched us r => some (us, m.rest r)

variable {m : Matcher K α} {r r' : Run K}

@[simp] theorem rest_expectAll (m : Matcher K α) (r : Run K) (kinds : List K) :
    m.rest (r.expectAll kinds) = m.rest r := by
  rw [rest, Run.index_expectAll, rest]

/-- Going back to where a run came from brings back what was left there. -/
@[simp] theorem rest_restore (m : Matcher K α) (r r' : Run K) :
    m.rest (r'.restore r.index) = m.rest r := rfl

/-- What is left begins with the next token. -/
theorem head?_rest (m : Matcher K α) (r : Run K) :
    (m.rest r).head? = m.tokens.get? r.index := by
  rw [rest, List.head?_drop, TokenList.get?_eq]

theorem rest_eq_cons {t : Token K} (h : m.tokens.get? r.index = some t) :
    m.rest r = t :: m.rest r.advance :=
  drop_toList h

/-- A run that has moved has less left. -/
theorem length_rest_lt (hext : m.Extends r r') (h : r.index < r'.index) :
    (m.rest r').length < (m.rest r).length := by
  have := hext.bound
  simp only [rest, List.length_drop, TokenList.length_toList]
  omega

/-- A run that has not moved has the same left. -/
theorem rest_eq_of_not_lt (hext : m.Extends r r') (h : ¬ r.index < r'.index) :
    m.rest r' = m.rest r := by
  have := hext.le
  rw [rest, rest, show r'.index = r.index by omega]

/-- A run that stands where its list ends has nothing left, and no other has. -/
theorem rest_eq_nil_iff : m.rest r = [] ↔ m.tokens.length ≤ r.index := by
  rw [rest, List.drop_eq_nil_iff, TokenList.length_toList]

variable [DecidableEq K] [TokenKind K] {goal : Goal K α}
  {o : Outcome K (List (Tree K α))}

/-- **What an attempt shows is what its goal means** where it was begun. -/
theorem Attempt.peg (h : m.Attempt goal r o) :
    m.grammar.Peg m.style goal (m.rest r) (m.shown o) := by
  induction h with
  | undeclared hx => exact .undeclared hx
  | head hx hh _ ih => exact .head hx hh ih
  | plain hx hh _ ih => exact .plain hx hh ih
  | noRule => exact .noRule fun _ h => absurd h List.not_mem_nil
  | rule _ ih => exact .rule rfl (fun _ h => absurd h List.not_mem_nil) ih
  | nextRule _ _ ih ih' => exact .after_rule ih ih'
  | done => exact .done
  | stuck _ ih => exact .stuck ih
  | @andThen c cs r r' us o _ _ ih ih' =>
    cases o with
    | exhausted | failed r'' => exact .stuckAfter ih ih'
    | matched vs r'' => exact .andThen ih ih'
  | refused hs => exact .refused hs
  | token ht hk =>
    rw [rest_eq_cons ht]
    exact .token hk
  | noToken hk =>
    refine .noToken fun t ht => hk t ?_
    rw [← head?_rest, ht]
  | @reference x d r o _ ih =>
    cases o with
    | exhausted | failed r' => exact .noReference ih
    | matched us r' => exact .reference ih
  | group hs _ ih => exact .group hs ih
  | choice hs _ ih => exact .choice hs ih
  | optional hs _ ih => exact .optional hs ih
  | optionalNone hs _ ih => exact .optionalNone hs ih
  | @star b r o hs _ ih =>
    cases o with
    | exhausted | failed r' => cases ih
    | matched us r' => exact .star hs ih
  | plusNone hs _ ih => exact .plusNone hs ih
  | @plus b r r' us o hs _ _ ih ih' =>
    cases o with
    | exhausted | failed r'' => cases ih'
    | matched vs r'' => exact .plus hs ih ih'
  | noBranch => exact .noBranch fun _ h => absurd h List.not_mem_nil
  | branch _ ih => exact .branch rfl (fun _ h => absurd h List.not_mem_nil) ih
  | nextBranch _ _ ih ih' => exact .after_branch ih ih'
  | stop _ ih => exact .stop ih
  | still h hlt ih =>
    have heq := rest_eq_of_not_lt h.extends hlt
    rw [shown, heq] at ih
    exact .still ih
  | @again b r r' us o h hlt _ ih ih' =>
    cases o with
    | exhausted | failed r'' => cases ih'
    | matched vs r'' => exact .again ih (length_rest_lt h.extends hlt) ih'
  | noOperand _ ih => exact .noOperand ih
  | fromOperand _ _ ih ih' => exact .fromOperand ih ih'
  | @noOperator n least left r ht =>
    rw [shown, rest_expectAll]
    refine .noOperator fun t op hhead hop => Nat.lt_of_not_le fun hle => ?_
    rw [head?_rest] at hhead
    cases ht.symm.trans (trailing?_eq_some_iff.mpr ⟨hhead, hop, hle⟩)
  | postfixed ht hp _ ih =>
    obtain ⟨ht, hop, hle⟩ := trailing?_eq_some_iff.mp ht
    rw [rest_eq_cons ht]
    exact .postfixed hop hle hp ih
  | @noRight n least left r r' t op p d ht hp _ ih =>
    obtain ⟨ht, hop, hle⟩ := trailing?_eq_some_iff.mp ht
    rw [shown, rest_restore, rest_eq_cons ht]
    exact .noRight hop hle hp ih
  | infixed ht hp _ _ ih ih' =>
    obtain ⟨ht, hop, hle⟩ := trailing?_eq_some_iff.mp ht
    rw [rest_eq_cons ht]
    exact .infixed hop hle hp ih ih'
  | @noPrefix n r o ht _ ih =>
    rw [rest_expectAll] at ih
    refine .noPrefix (fun t hhead => ?_) ih
    rw [head?_rest] at hhead
    refine Option.eq_none_iff_forall_ne_some.mpr fun op hop => ?_
    cases ht.symm.trans (leading?_eq_some_iff.mpr ⟨hhead, hop⟩)
  | prefixed ht _ ih =>
    obtain ⟨ht, hop⟩ := leading?_eq_some_iff.mp ht
    rw [rest_eq_cons ht]
    exact .prefixed hop ih
  | @prefixNone n r r' t op o ht _ _ ih ih' =>
    obtain ⟨ht, hop⟩ := leading?_eq_some_iff.mp ht
    rw [rest_expectAll, rest_restore] at ih'
    rw [rest_eq_cons ht] at ih' ⊢
    exact .prefixNone hop ih ih'

/-! ## Without left recursion the matcher answers what is meant -/

omit [DecidableEq K] [TokenKind K] in
/-- Where a run stands can be told from what is left to it. -/
theorem index_eq_of_rest_eq {q : Nat} (hr : r.index ≤ m.tokens.length)
    (hq : q ≤ m.tokens.length) (h : m.rest r = m.tokens.toList.drop q) :
    r.index = q := by
  have hlen := congrArg List.length h
  simp only [rest, List.length_drop, TokenList.length_toList] at hlen
  omega

/-- **An attempt shows all that its goal means**: a goal has one meaning, and
that is what the one end of the attempt shows. -/
theorem Attempt.shown_eq_iff (h : m.Attempt goal r o)
    {a : Option (List (Tree K α) × List (Token K))} :
    m.shown o = a ↔ m.grammar.Peg m.style goal (m.rest r) a := by
  constructor
  · rintro rfl
    exact h.peg
  · exact h.peg.unique

/-- **Without left recursion every goal means something** where a run stands. -/
theorem exists_peg (h : m.grammar.isLeftRecursive = false) (goal : Goal K α)
    (r : Run K) : ∃ a, m.grammar.Peg m.style goal (m.rest r) a := by
  obtain ⟨o, _, hatt, _⟩ := exists_outcome h goal r
  exact ⟨m.shown o, hatt.peg⟩

/-- **A parse gives the tree of all tokens** if that is what the start means,
without left recursion. -/
theorem parse_eq_tree_iff_peg (h : m.grammar.isLeftRecursive = false)
    {start : String} {tree : Tree K α} :
    m.parse start = .ok (.ok tree) ↔
      m.grammar.Peg m.style (.name start) m.tokens.toList
        (some ([tree], [])) := by
  rw [parse_eq_tree_iff]
  constructor
  · rintro ⟨_, r, hr⟩
    obtain ⟨hatt, hlen⟩ := attempt_of_matchAll_matched hr
    rw [← rest_eq_nil_iff.mpr hlen]
    exact hatt.peg
  · intro hpeg
    have hstart : m.grammar.contains start = true := by
      rw [Grammar.contains_eq_isSome_get?]
      refine Option.isSome_iff_ne_none.mpr fun hnone => ?_
      cases hpeg.unique (.undeclared hnone)
    refine ⟨hstart, ?_⟩
    cases hm : m.matchAll start with
    | exhausted => exact absurd hm (matchAll_ne_exhausted h start)
    | failed r =>
      rcases attempt_of_matchAll_failed hm with hatt | ⟨tree', r', hatt, hlt, _⟩
      · cases hatt.peg.unique hpeg
      · have heq := hatt.peg.unique hpeg
        have hnil : m.rest r' = [] := congrArg Prod.snd (Option.some.inj heq)
        exact absurd (rest_eq_nil_iff.mp hnil) (Nat.not_le.mpr hlt)
    | matched tree' r =>
      obtain ⟨hatt, _⟩ := attempt_of_matchAll_matched hm
      have heq := hatt.peg.unique hpeg
      obtain rfl : tree' = tree :=
        List.singleton_inj.mp (congrArg Prod.fst (Option.some.inj heq))
      exact ⟨r, rfl⟩

/-- Without left recursion a parse from a declared start ends in a tree or at an
unexpected token. -/
theorem tree_or_unexpected_of_parse (h : m.grammar.isLeftRecursive = false)
    {start : String} (hstart : m.grammar.contains start = true) :
    (∃ tree, m.parse start = .ok (.ok tree)) ∨
      ∃ e, m.parse start = .ok (.error (.unexpected e)) := by
  rw [parse, if_pos hstart]
  cases hm : m.matchAll start with
  | exhausted => exact absurd hm (matchAll_ne_exhausted h start)
  | failed r => exact .inr ⟨_, rfl⟩
  | matched tree r => exact .inl ⟨tree, rfl⟩

/-- **Matching a non-terminal computes what it means.** Without left recursion,
at every index of every token list and within every budget that suffices: the
matcher gives a tree and ends at an index exactly if that is what the name means
at the tokens from there on, and fails exactly if the name means failure. -/
theorem nonTerminal_iff_peg (m : Matcher K α)
    (h : m.grammar.isLeftRecursive = false) (x : String) {r : Run K}
    (hr : r.index ≤ m.tokens.length) {n : Nat} (hn : m.budget ≤ n) :
    (∀ tree q, q ≤ m.tokens.length →
      ((∃ r', m.nonTerminal n x r = .matched tree r' ∧ r'.index = q) ↔
        m.grammar.Peg m.style (.name x) (m.tokens.toList.drop r.index)
          (some ([tree], m.tokens.toList.drop q)))) ∧
    ((∃ r', m.nonTerminal n x r = .failed r') ↔
      m.grammar.Peg m.style (.name x) (m.tokens.toList.drop r.index) none) := by
  obtain ⟨o, ho, hatt, hout⟩ := exists_outcome h (.name x) r
  have hname := hout n (m.budget_eq_stepBound x ▸ hn)
  rw [outcome] at hname
  have hpeg := @Attempt.shown_eq_iff _ _ _ _ _ _ _ _ hatt
  constructor
  · intro tree q hq
    rw [← rest, ← hpeg, ← hname]
    constructor
    · rintro ⟨r', hr', rfl⟩
      rw [hr']
      rfl
    · intro hshown
      cases hm : m.nonTerminal n x r with
      | exhausted | failed r' => simp [hm, shown] at hshown
      | matched tree' r' =>
        rw [hm, Outcome.map_matched] at hname hshown
        subst hname
        have hle : r'.index ≤ m.tokens.length := by
          have := (Outcome.all_matched.mp hatt.extends).bound
          omega
        simp only [shown, Option.some.injEq, Prod.mk.injEq, List.cons.injEq,
          and_true] at hshown
        obtain ⟨rfl, hrest⟩ := hshown
        exact ⟨r', rfl, index_eq_of_rest_eq hle hq hrest⟩
  · rw [← rest, ← hpeg, ← hname]
    cases hm : m.nonTerminal n x r with
    | exhausted =>
      rw [hm] at hname
      exact absurd hname.symm ho
    | failed r' => simp [shown]
    | matched tree r' => simp [shown]

end Matcher

namespace Script

/-- What `1 + 2` means as a list, and that no sum begins with its sign. -/
theorem onePlusTwo_peg :
    sums.isLeftRecursive = false ∧
      sums.Peg .ebnf (.name "list") onePlusTwo.toList
        (some ([onePlusTwoTree], [])) ∧
      sums.Peg .ebnf (.name "sum") (onePlusTwo.toList.drop 1) none := by
  have h : sums.isLeftRecursive = false := by decide +kernel
  have hstart := Matcher.nonTerminal_iff_peg ⟨sums, .ebnf, onePlusTwo⟩ h "list"
    (r := .start) (Nat.zero_le _) (Nat.le_refl _)
  have hsign := Matcher.nonTerminal_iff_peg ⟨sums, .ebnf, onePlusTwo⟩ h "sum"
    (r := ⟨1, []⟩) (by decide) (Nat.le_refl _)
  exact ⟨h, (hstart.1 onePlusTwoTree 3 (by decide)).mp ⟨_, rfl, rfl⟩,
    hsign.2.mp ⟨_, rfl⟩⟩

end Script

end Descent
