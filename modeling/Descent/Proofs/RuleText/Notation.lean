import Mathlib.Data.List.Forall2
import Descent.RuleText.Grammar

/-!
# The notation of rule texts

What a rule text is, and what it declares, can be said without a matcher. Over
the kinds of its tokens a rule text is a sentence of

```
rule        : Ident Colon body Semicolon?
body        : operator | alternation |
operator    : (Infix | Prefix | Postfix) Ident (Left | Right)? Int
alternation : sequence (Pipe sequence)*
sequence    : clause+
clause      : atom (Question | Star | Plus)?
atom        : Ident Discard? | LParen alternation RParen
```

and `RuleText.Spells` reads off a derivation from this grammar what is declared.
There is no order of choice in it and no callback: a sentence spells whatever one
of its derivations says. That it spells one thing only is a theorem about the
reader, not a part of the definition.
-/

namespace Descent.RuleText

variable {K : Type}

/-- **The parts of a rule text**: the symbols of the grammar above. -/
inductive Symbol where
  | rule | body | operator | alternation | sequence | clause | atom
  deriving DecidableEq

/-- The name of a part. -/
def Symbol.name : Symbol → String
  | rule => "rule"
  | body => "body"
  | operator => "operator"
  | alternation => "alternation"
  | sequence => "sequence"
  | clause => "clause"
  | atom => "atom"

/-- **What an identifier stands for**: a token if a kind is called so, else
whatever the non-terminal of that name matches. -/
inductive Names [TokenKind K] (text : String) (discarded : Bool) :
    Clause K → Prop
  /-- A kind is called so. -/
  | kind {k : K} : TokenKind.ofName? text = some k →
      Names text discarded (.token k discarded)
  /-- No kind is called so. -/
  | other : TokenKind.ofName? (K := K) text = none →
      Names text discarded (.reference text discarded)

/-- **What a suffix makes of a clause.** -/
inductive Suffixed (c : Clause K) : RuleKind → Clause K → Prop
  /-- The clause or nothing. -/
  | question : Suffixed c .question (.optional c)
  /-- The clause as often as it matches. -/
  | star : Suffixed c .star (.star c)
  /-- The clause as often as it matches, and at least once. -/
  | plus : Suffixed c .plus (.plus c)

/-- **A sequence as one clause**: a single clause is itself, two or more are a
group. -/
inductive Joined : List (Clause K) → Clause K → Prop
  /-- A single clause. -/
  | one {c : Clause K} : Joined [c] c
  /-- Two or more. -/
  | many {c d : Clause K} {cs : List (Clause K)} :
      Joined (c :: d :: cs) (.group (c :: d :: cs))

/-- **What parentheses make of branches**: a single branch is that branch as one
clause, two or more are a choice between them. -/
inductive Enclosed : List (List (Clause K)) → Clause K → Prop
  /-- A single branch. -/
  | one {branch : List (Clause K)} {c : Clause K} :
      Joined branch c → Enclosed [branch] c
  /-- Two or more. -/
  | many {b b' : List (Clause K)} {bs : List (List (Clause K))}
      {cs : List (Clause K)} :
      List.Forall₂ Joined (b :: b' :: bs) cs →
      Enclosed (b :: b' :: bs) (.choice cs)

/-- The words that declare operators, each for its place. -/
inductive Declares : RuleKind → Affix → Prop
  | infixed : Declares .infixed .infixOp
  | prefixed : Declares .prefixed .prefixOp
  | postfixed : Declares .postfixed .postfixOp

/-- The words that say which way an operator groups. -/
inductive Directs : RuleKind → Associativity → Prop
  | left : Directs .left .left
  | right : Directs .right .right

/-- **What some tokens spell** as a part of a rule text. -/
inductive Spells [TokenKind K] :
    Symbol → List (Token RuleKind) → Part K → Prop
  /-- A name, a colon and a right-hand side. -/
  | rule {name colon : Token RuleKind} {ts : List (Token RuleKind)}
      {body : Body K} :
      name.kind = .ident → colon.kind = .colon → Spells .body ts (.body body) →
      Spells .rule (name :: colon :: ts) (.declaration ⟨name.text, body⟩)
  /-- The same, ended by a semicolon. -/
  | ruleEnd {name colon semicolon : Token RuleKind} {ts : List (Token RuleKind)}
      {body : Body K} :
      name.kind = .ident → colon.kind = .colon → Spells .body ts (.body body) →
      semicolon.kind = .semicolon →
      Spells .rule (name :: colon :: (ts ++ [semicolon]))
        (.declaration ⟨name.text, body⟩)
  /-- An operator is a right-hand side. -/
  | operatorBody {ts : List (Token RuleKind)} {op : OperatorDeclaration} :
      Spells .operator ts (.operator op) →
      Spells .body ts (.body (.operator op))
  /-- Branches are a right-hand side. -/
  | branchesBody {ts : List (Token RuleKind)}
      {branches : List (List (Clause K))} :
      Spells .alternation ts (.branches branches) →
      Spells .body ts (.body (.branches branches))
  /-- Nothing is a right-hand side: one branch without clauses. -/
  | emptyBody : Spells .body [] (.body (.branches [[]]))
  /-- A declaring word, a symbol and a precedence. -/
  | operator {word symbol precedence : Token RuleKind} {affix : Affix} :
      Declares word.kind affix → symbol.kind = .ident → precedence.kind = .int →
      Spells .operator [word, symbol, precedence]
        (.operator ⟨affix, symbol.text, none, precedence.text⟩)
  /-- The same, with a direction. -/
  | directed {word symbol direction precedence : Token RuleKind} {affix : Affix}
      {associativity : Associativity} :
      Declares word.kind affix → symbol.kind = .ident →
      Directs direction.kind associativity → precedence.kind = .int →
      Spells .operator [word, symbol, direction, precedence]
        (.operator ⟨affix, symbol.text, some associativity, precedence.text⟩)
  /-- A sequence is the one branch, or the last. -/
  | branch {ts : List (Token RuleKind)} {clauses : List (Clause K)} :
      Spells .sequence ts (.sequence clauses) →
      Spells .alternation ts (.branches [clauses])
  /-- A sequence is a branch before others. -/
  | branches {ts us : List (Token RuleKind)} {bar : Token RuleKind}
      {clauses : List (Clause K)} {branches : List (List (Clause K))} :
      Spells .sequence ts (.sequence clauses) → bar.kind = .pipe →
      Spells .alternation us (.branches branches) →
      Spells .alternation (ts ++ bar :: us) (.branches (clauses :: branches))
  /-- A clause is the one of a sequence, or the last. -/
  | last {ts : List (Token RuleKind)} {c : Clause K} :
      Spells .clause ts (.clause c) → Spells .sequence ts (.sequence [c])
  /-- A clause is one of a sequence before others. -/
  | sequence {ts us : List (Token RuleKind)} {c : Clause K}
      {cs : List (Clause K)} :
      Spells .clause ts (.clause c) → Spells .sequence us (.sequence cs) →
      Spells .sequence (ts ++ us) (.sequence (c :: cs))
  /-- An atom is a clause. -/
  | clause {ts : List (Token RuleKind)} {c : Clause K} :
      Spells .atom ts (.clause c) → Spells .clause ts (.clause c)
  /-- An atom with a suffix is a clause. -/
  | suffixed {ts : List (Token RuleKind)} {suffix : Token RuleKind}
      {c d : Clause K} :
      Spells .atom ts (.clause c) → Suffixed c suffix.kind d →
      Spells .clause (ts ++ [suffix]) (.clause d)
  /-- An identifier is an atom. -/
  | name {name : Token RuleKind} {c : Clause K} :
      name.kind = .ident → Names name.text false c →
      Spells .atom [name] (.clause c)
  /-- An identifier with the mark of discarded clauses is an atom. -/
  | discarded {name mark : Token RuleKind} {c : Clause K} :
      name.kind = .ident → mark.kind = .discard → Names name.text true c →
      Spells .atom [name, mark] (.clause c)
  /-- Branches between parentheses are an atom. -/
  | parentheses {open_ close : Token RuleKind} {ts : List (Token RuleKind)}
      {branches : List (List (Clause K))} {c : Clause K} :
      open_.kind = .lparen → Spells .alternation ts (.branches branches) →
      close.kind = .rparen → Enclosed branches c →
      Spells .atom (open_ :: (ts ++ [close])) (.clause c)

end Descent.RuleText
