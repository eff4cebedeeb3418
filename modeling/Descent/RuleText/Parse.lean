import Descent.Matching.Parse
import Descent.RuleText.Grammar

/-!
# Parsing rule texts

`RuleText.parse` reads a rule text with the grammar of rule texts, so its
errors are parse errors like all others: they say what stood where, and which
signs could have stood there.
-/

namespace Descent.RuleText

variable {K : Type}

/-- The matcher of rule texts over some tokens. -/
def matcher (K : Type) [TokenKind K] (tokens : TokenList RuleKind) :
    Matcher RuleKind (Part K) :=
  ⟨grammar K, .ebnf, tokens⟩

/-- **What a rule text declares**, in terms of the token kinds of the host. -/
def parse [TokenKind K] (text : String) :
    Except Fault (Except (ParseError RuleKind) (Declaration K)) := do
  match ← lexicon.lexer.read text with
  | .error e => return .error (.lexical e)
  | .ok tokens =>
    match ← (matcher K tokens).evaluate root with
    | .error e => return .error e
    | .ok (.declaration d) => return .ok d
    | .ok _ => return .error (.missingCallback root)

/-- What is shown of the reader of rule texts: the size of its grammar. -/
def description (K : Type) [TokenKind K] : Description :=
  .record "MetaGrammar" [("non_terminals", .nat (grammar K).size)] true

end Descent.RuleText
