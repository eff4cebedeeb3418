import Descent.Grammar.LeftRecursion
import Descent.Parser.Basic
import Descent.Parser.BuildError
import Descent.RuleText.Parse

/-!
# Building parsers

A parser is built from productions: rule texts, each with a name and with the
callback for what it declares. Building has two stages, and the second is
reached only if the first finds nothing wrong.

1. **Extraction** reads every rule text. Each branch of a rule becomes a rule
   of the grammar, each operator declaration an operator. A text that cannot
   be read, and an operator that cannot be meant, is one error.
2. **Validation** checks the grammar as a whole: the start is declared, every
   name referred to is declared, the plain style is asked to match plain
   rules only, no non-terminal is left-recursive, and there is a lexer.

Each stage reports everything that it finds.
-/

namespace Descent

/-- **A rule text** with its name and its callback. -/
structure Production (K α : Type) where
  /-- The name of the production. -/
  name : String
  /-- The rule text. -/
  text : String
  /-- What is made of what the rule text declares. -/
  callback : Callback K α

/-- **Where a parser's lexer comes from.** -/
inductive LexerSource (K : Type) where
  /-- Nobody has given one. -/
  | missing
  /-- This one. -/
  | ready (lexer : Lexer K)
  /-- Making it has failed, for a reason. -/
  | failed (reason : String)

/-- **What a parser is built from.** -/
structure Builder (K α : Type) where
  /-- The productions, in order. -/
  productions : List (Production K α)
  /-- The lexer. -/
  lexer : LexerSource K
  /-- The language of messages. -/
  catalog : Catalog

namespace Builder

variable {K α : Type}

/-- A builder without productions and lexer that speaks English. -/
def empty : Builder K α := ⟨[], .missing, .english⟩

/-- Adds a production. -/
def production (b : Builder K α) (name text : String) (callback : Callback K α) :
    Builder K α :=
  { b with productions := b.productions ++ [⟨name, text, callback⟩] }

/-- Adds several productions of one name and callback. -/
def productionsOf (b : Builder K α) (name : String) (texts : List String)
    (callback : Callback K α) : Builder K α :=
  texts.foldl (fun b text => b.production name text callback) b

/-- Sets the lexer. -/
def withLexer (b : Builder K α) (lexer : LexerSource K) : Builder K α :=
  { b with lexer }

/-- Sets the language of messages. -/
def withCatalog (b : Builder K α) (catalog : Catalog) : Builder K α :=
  { b with catalog }

/-- Whether somebody has given a lexer, even one that failed. -/
def hasLexer (b : Builder K α) : Bool :=
  match b.lexer with
  | .missing => false
  | .ready _ | .failed _ => true

/-- The builder with the number of its productions. -/
def description (b : Builder K α) : Description :=
  .record "ParserBuilder"
    [("productions", .nat b.productions.length), ("has_lexer", .bool b.hasLexer),
      ("catalog", b.catalog.description)] true

/-! ## Extraction -/

/-- The kind and the operation that are meant by an operator declaration, or
why there are none: the symbol has to be a kind of token, the precedence has
to fit its word, and only an operator between operands takes a direction. -/
def operationOf [TokenKind K] (catalog : Catalog) (d : OperatorDeclaration) :
    Except String (K × Operation) :=
  match TokenKind.ofName? d.symbol with
  | none => .error (catalog.text .notAKind [d.symbol])
  | some kind =>
    match decimalBelow? UInt32.size d.precedence.toList with
    | none => .error (catalog.text .invalidPrecedence [d.precedence])
    | some n =>
      let precedence := UInt32.ofNat n
      match d.affix, d.associativity with
      | .infixOp, a => .ok (kind, .infixOp precedence (a.getD .left))
      | .prefixOp, none => .ok (kind, .prefixOp precedence)
      | .postfixOp, none => .ok (kind, .postfixOp precedence)
      | affix, some _ =>
        .error (catalog.text .unaryAssociativity [affix.display])

/-- The rule of one branch of a production. -/
def ruleOf (p : Production K α) (clauses : List (Clause K)) : Rule K α :=
  ⟨clauses, p.text, p.name, p.callback⟩

/-- Adds to a grammar what a production declares, or says what is wrong with
it. -/
def addDeclaration [TokenKind K] (catalog : Catalog) (g : Grammar K α)
    (p : Production K α) :
    Except (ParseError RuleKind) (Declaration K) → Except BuildError (Grammar K α)
  | .error e =>
    .error ⟨.malformedRule, .fatal,
      catalog.text .malformedRule [p.text, e.text catalog]⟩
  | .ok ⟨head, .branches branches⟩ =>
    .ok (branches.foldl (fun g clauses => g.addRule head (ruleOf p clauses)) g)
  | .ok ⟨head, .operator d⟩ =>
    match operationOf catalog d with
    | .ok (kind, operation) =>
      .ok (g.addOperator head ⟨kind, operation, p.text, p.name, p.callback⟩)
    | .error reason =>
      .error ⟨.invalidOperator, .fatal,
        catalog.text .invalidOperator [p.text, reason]⟩

/-- Extends a grammar by productions, collecting what is wrong with them. -/
def extractFrom [TokenKind K] (catalog : Catalog) (g : Grammar K α) :
    List (Production K α) → Except Fault (Grammar K α × List BuildError)
  | [] => .ok (g, [])
  | p :: ps => do
    match addDeclaration catalog g p (← RuleText.parse p.text) with
    | .ok g' => extractFrom catalog g' ps
    | .error e =>
      let (g', es) ← extractFrom catalog g ps
      return (g', e :: es)

/-- **The grammar of the productions**, with the errors found in them. -/
def extract [TokenKind K] (b : Builder K α) (start : String) :
    Except Fault (Grammar K α × List BuildError) :=
  extractFrom b.catalog (.empty start) b.productions

/-! ## Validation -/

/-- The start has to be declared. -/
def startErrors (catalog : Catalog) (g : Grammar K α) : List BuildError :=
  if g.contains g.start then []
  else [⟨.missingStart, .error, catalog.text .missingStart [g.start]⟩]

/-- Every name referred to has to be declared. -/
def referenceErrors (catalog : Catalog) (g : Grammar K α) : List BuildError :=
  g.undefinedReferences.map fun (referring, name) =>
    ⟨.undefinedName, .error, catalog.text .undefinedName [name, referring]⟩

/-- The plain style matches plain rules only. -/
def styleErrors (catalog : Catalog) (style : Style) (g : Grammar K α) :
    List BuildError :=
  match style with
  | .ebnf => []
  | .plain =>
    (g.rules.filter (!·.isPlain)).map fun r =>
      ⟨.ebnfInPlain, .error, catalog.text .ebnfInPlain [r.text]⟩

/-- No non-terminal may be left-recursive. -/
def recursionErrors (catalog : Catalog) (g : Grammar K α) : List BuildError :=
  if g.isLeftRecursive then
    [⟨.leftRecursion, .fatal,
      catalog.text .leftRecursion [Grammar.renderCycles g.leftCycles]⟩]
  else []

/-- **Everything that is wrong with a grammar.** -/
def validate (catalog : Catalog) (style : Style) (g : Grammar K α) :
    List BuildError :=
  startErrors catalog g ++ referenceErrors catalog g ++
    styleErrors catalog style g ++ recursionErrors catalog g

/-- There has to be a lexer. -/
def lexerOf (b : Builder K α) : Except BuildError (Lexer K) :=
  match b.lexer with
  | .ready lexer => .ok lexer
  | .failed reason =>
    .error ⟨.lexerFailed, .error, b.catalog.text .lexerFailed [reason]⟩
  | .missing => .error ⟨.lexerFailed, .error, b.catalog.text .missingLexer []⟩

/-- **Builds a parser**, or says everything that is in the way. -/
def build [TokenKind K] (b : Builder K α) (style : Style) (start : String) :
    Except Fault (Except (List BuildError) (Parser K α)) := do
  let (grammar, errors) ← b.extract start
  if errors.isEmpty then
    let errors := validate b.catalog style grammar
    match b.lexerOf with
    | .error e => return .error (errors ++ [e])
    | .ok lexer =>
      if errors.isEmpty then return .ok ⟨style, grammar, lexer, b.catalog⟩
      else return .error errors
  else return .error errors

end Builder

end Descent
