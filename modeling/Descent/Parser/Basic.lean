import Descent.Matching.Parse

/-!
# Parsers

A parser is a grammar that has been checked, with the lexer and the language
of messages that it is used with. It is what `Builder.build` gives; it can
be used for any number of texts.
-/

namespace Descent

/-- **A parser for a checked grammar.** -/
structure Parser (K α : Type) where
  /-- How much of the clause language is matched. -/
  style : Style
  /-- The grammar. -/
  grammar : Grammar K α
  /-- What turns texts into tokens. -/
  lexer : Lexer K
  /-- The language of reports. -/
  catalog : Catalog

namespace Parser

variable {K α : Type} [DecidableEq K] [TokenKind K]

/-- The matcher of the parser over some tokens. -/
def matcher (p : Parser K α) (tokens : TokenList K) : Matcher K α :=
  ⟨p.grammar, p.style, tokens⟩

/-- The tokens of a text. -/
def tokenize (p : Parser K α) (text : String) :
    Except Fault (Except (ParseError K) (TokenList K)) := do
  return (← p.lexer.read text).mapError .lexical

/-- **The output of a text**, parsed from a name. -/
def parseFrom (p : Parser K α) (text start : String) :
    Except Fault (Except (ParseError K) α) := do
  match ← p.tokenize text with
  | .error e => return .error e
  | .ok tokens => (p.matcher tokens).evaluate start

/-- **The output of a text**, parsed from the start of the grammar. -/
def parse (p : Parser K α) (text : String) :
    Except Fault (Except (ParseError K) α) :=
  p.parseFrom text p.grammar.start

/-- The output of a token list. -/
def parseTokens (p : Parser K α) (tokens : TokenList K) :
    Except Fault (Except (ParseError K) α) :=
  (p.matcher tokens).evaluate p.grammar.start

/-- The tree of a text. -/
def parseTree (p : Parser K α) (text : String) :
    Except Fault (Except (ParseError K) (Tree K α)) := do
  match ← p.tokenize text with
  | .error e => return .error e
  | .ok tokens => (p.matcher tokens).parse p.grammar.start

/-- The outputs of several texts, each on its own. -/
def parseAll (p : Parser K α) (texts : List String) :
    Except Fault (List (Except (ParseError K) α)) :=
  texts.mapM p.parse

/-- **The report of an error** over its source, in the language of the
parser. -/
def report (p : Parser K α) (source : String) (error : ParseError K) : String :=
  error.report source p.catalog

/-- The parser with its style, its start and the size of its grammar. -/
def description (p : Parser K α) : Description :=
  .record "Parser"
    [("kind", .word p.style.label), ("starting_rule", .text p.grammar.start),
      ("non_terminals", .nat p.grammar.size)] true

end Parser

end Descent
