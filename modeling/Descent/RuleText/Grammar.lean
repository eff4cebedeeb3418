import Descent.Grammar.Basic
import Descent.RuleText.Declaration
import Descent.RuleText.Kind

/-!
# The grammar of rule texts

Rule texts are parsed like every other text: by a grammar, which is written
down here as a value because there is nothing yet that could read it. In rule
notation it is

```
rule        : Ident Colon [d] body Semicolon [d]?
body        : operator | alternation |
operator    : (Infix | Prefix | Postfix) Ident (Left | Right)? Int
alternation : sequence (Pipe [d] sequence)*
sequence    : clause+
clause      : atom (Question | Star | Plus)?
atom        : Ident Discard? | LParen [d] alternation RParen [d]
```

The callbacks turn each match into a `Part`. The grammar settles which values
a callback is given, so each one has a single case that matters; it gives an
empty body for any other arguments.

Parentheses around a single clause vanish. Around a sequence they make a
group, around several branches a choice, whose branches are clauses again.
-/

namespace Descent

/-- **What a piece of a rule text is read as.** -/
inductive Part (K : Type) where
  /-- A whole rule text. -/
  | declaration (declaration : Declaration K)
  /-- A right-hand side. -/
  | body (body : Body K)
  /-- An operator. -/
  | operator (declaration : OperatorDeclaration)
  /-- Sequences parted by bars. -/
  | branches (branches : List (List (Clause K)))
  /-- A sequence of clauses. -/
  | sequence (clauses : List (Clause K))
  /-- A clause. -/
  | clause (clause : Clause K)

namespace RuleText

/-- The name of the non-terminal that a rule text is matched by. -/
def root : String := "rule"

variable {K : Type}

/-- The values that callbacks of rule texts are given. -/
abbrev Arg (K : Type) := Value RuleKind (Part K)

/-! ## Building clauses -/

/-- A single clause stands for itself, a sequence for the group of its
clauses. -/
def clauseOfSequence : List (Clause K) → Clause K
  | [clause] => clause
  | clauses => .group clauses

/-- **What parentheses stand for**: one branch for its own clause, several for
the choice between theirs. -/
def clauseOfBranches : List (List (Clause K)) → Clause K
  | [branch] => clauseOfSequence branch
  | branches => .choice (branches.map clauseOfSequence)

/-- What a name stands for: the kind of token of that name if there is one,
else the non-terminal. -/
def clauseOfName [TokenKind K] (name : String) (discarded : Bool) : Clause K :=
  match TokenKind.ofName? name with
  | some kind => .token kind discarded
  | none => .reference name discarded

/-- A clause with the sign that follows it. -/
def withSuffix (clause : Clause K) : Option RuleKind → Clause K
  | some .question => .optional clause
  | some .star => .star clause
  | some .plus => .plus clause
  | _ => clause

/-! ## The callbacks -/

/-- The kind of the token in an optional value. -/
def kindOf : Option (Arg K) → Option RuleKind
  | some (.token t) => some t.kind
  | _ => none

/-- The sequences among values. -/
def sequences (items : List (Arg K)) : List (List (Clause K)) :=
  items.filterMap fun
    | .out (.sequence clauses) => some clauses
    | _ => none

/-- The clauses among values. -/
def clauses (items : List (Arg K)) : List (Clause K) :=
  items.filterMap fun
    | .out (.clause clause) => some clause
    | _ => none

/-- A name, its body and perhaps a semicolon. -/
def readRule : List (Arg K) → Part K
  | [.token name, .out (.body body), _] => .declaration ⟨name.text, body⟩
  | _ => .body .empty

/-- An operator as a right-hand side. -/
def readOperatorBody : List (Arg K) → Part K
  | [.out (.operator declaration)] => .body (.operator declaration)
  | _ => .body .empty

/-- Branches as a right-hand side. -/
def readBranchesBody : List (Arg K) → Part K
  | [.out (.branches branches)] => .body (.branches branches)
  | _ => .body .empty

/-- Where an operator stands, by the word that declares it. -/
def affixOf : RuleKind → Affix
  | .prefixed => .prefixOp
  | .postfixed => .postfixOp
  | _ => .infixOp

/-- Which way an operator groups, by the word that says so. -/
def associativityOf : Option RuleKind → Option Associativity
  | some .left => some .left
  | some .right => some .right
  | _ => none

/-- A declaring word, a symbol, perhaps a direction, and a precedence. -/
def readOperator : List (Arg K) → Part K
  | [.token affix, .token symbol, .optional direction, .token precedence] =>
    .operator
      ⟨affixOf affix.kind, symbol.text, associativityOf (kindOf direction),
        precedence.text⟩
  | _ => .body .empty

/-- A sequence and those after it. -/
def readAlternation : List (Arg K) → Part K
  | [.out (.sequence first), .list more] => .branches (first :: sequences more)
  | _ => .body .empty

/-- The clauses of a sequence. -/
def readSequence : List (Arg K) → Part K
  | [.list items] => .sequence (clauses items)
  | _ => .body .empty

/-- An atom and perhaps a sign after it. -/
def readClause : List (Arg K) → Part K
  | [.out (.clause atom), .optional suffix] =>
    .clause (withSuffix atom (kindOf suffix))
  | _ => .body .empty

/-- A name and perhaps the discard mark. -/
def readName [TokenKind K] : List (Arg K) → Part K
  | [.token name, .optional mark] => .clause (clauseOfName name.text mark.isSome)
  | _ => .body .empty

/-- Branches between parentheses. -/
def readParentheses : List (Arg K) → Part K
  | [.out (.branches branches)] => .clause (clauseOfBranches branches)
  | _ => .body .empty

/-! ## The rules -/

/-- A token that is kept. -/
def kept (kind : RuleKind) : Clause RuleKind := .token kind false

/-- A token that is discarded. -/
def dropped (kind : RuleKind) : Clause RuleKind := .token kind true

/-- Whatever a non-terminal matches. -/
def name (name : String) : Clause RuleKind := .reference name false

/-- One of some tokens. -/
def oneOf (kinds : List RuleKind) : Clause RuleKind := .choice (kinds.map kept)

/-- A rule for rule texts, with its non-terminal. -/
def ruleFor (head : String) (clauses : List (Clause RuleKind))
    (callback : Callback RuleKind (Part K)) :
    String × Rule RuleKind (Part K) :=
  (head, .ofClauses head clauses callback)

/-- **The rules for rule texts.** Operators stand before clauses; no clause
begins with a declaring word. -/
def rules (K : Type) [TokenKind K] : List (String × Rule RuleKind (Part K)) :=
  [ruleFor root
      [kept .ident, dropped .colon, name "body", .optional (dropped .semicolon)]
      readRule,
    ruleFor "body" [name "operator"] readOperatorBody,
    ruleFor "body" [name "alternation"] readBranchesBody,
    ruleFor "body" [] fun _ => .body .empty,
    ruleFor "operator"
      [oneOf [.infixed, .prefixed, .postfixed], kept .ident,
        .optional (oneOf [.left, .right]), kept .int]
      readOperator,
    ruleFor "alternation"
      [name "sequence", .star (.group [dropped .pipe, name "sequence"])]
      readAlternation,
    ruleFor "sequence" [.plus (name "clause")] readSequence,
    ruleFor "clause"
      [name "atom", .optional (oneOf [.question, .star, .plus])] readClause,
    ruleFor "atom" [kept .ident, .optional (kept .discard)] readName,
    ruleFor "atom" [dropped .lparen, name "alternation", dropped .rparen]
      readParentheses]

/-- **The grammar of rule texts.** -/
def grammar (K : Type) [TokenKind K] : Grammar RuleKind (Part K) :=
  (rules K).foldl (fun g (head, rule) => g.addRule head rule) (.empty root)

end RuleText

end Descent
