import Descent.Diagnostic.Template
import Descent.Text.Description

/-!
# Message catalogs

All texts shown to users are made from the templates of a catalog, one per
message and locale. A catalog is a plain value that is handed around; there
is no locale of the whole process.
-/

namespace Descent

/-- **The languages of messages.** -/
inductive Locale where
  | english | french
  deriving DecidableEq, Repr

namespace Locale

/-- English, unless something else is asked for. -/
instance : Inhabited Locale := ⟨english⟩

/-- The code of the language. -/
def code : Locale → String
  | english => "en"
  | french => "fr"

/-- The label shown in descriptions. -/
def label : Locale → String
  | english => "English"
  | french => "French"

/-- The language of a code, in capital or small letters. -/
def ofCode? (s : String) : Option Locale :=
  let cs := s.toList.map Char.toLower
  if cs = ['e', 'n'] then some english
  else if cs = ['f', 'r'] then some french
  else none

end Locale

/-- **The messages** that can be shown. -/
inductive Message where
  | unexpectedToken | unexpectedTokenExpecting | unexpectedEnd
  | unexpectedEndExpecting | unrecognizedInput | malformedRule | leftRecursion
  | undefinedName | missingStart | ebnfInPlain | invalidOperator | notAKind
  | invalidPrecedence | unaryAssociativity | lexerFailed | missingLexer
  | missingCallback
  deriving DecidableEq, Repr

namespace Message

/-- All messages, in order. -/
def all : List Message :=
  [unexpectedToken, unexpectedTokenExpecting, unexpectedEnd,
    unexpectedEndExpecting, unrecognizedInput, malformedRule, leftRecursion,
    undefinedName, missingStart, ebnfInPlain, invalidOperator, notAKind,
    invalidPrecedence, unaryAssociativity, lexerFailed, missingLexer,
    missingCallback]

/-- The name of a message. -/
def name : Message → String
  | unexpectedToken => "UnexpectedToken"
  | unexpectedTokenExpecting => "UnexpectedTokenExpecting"
  | unexpectedEnd => "UnexpectedEos"
  | unexpectedEndExpecting => "UnexpectedEosExpecting"
  | unrecognizedInput => "UnrecognizedInput"
  | malformedRule => "MalformedRule"
  | leftRecursion => "LeftRecursion"
  | undefinedName => "UndefinedNonTerminal"
  | missingStart => "MissingStartingRule"
  | ebnfInPlain => "EbnfInPlainGrammar"
  | invalidOperator => "InvalidOperator"
  | notAKind => "OperatorNotATerminal"
  | invalidPrecedence => "InvalidPrecedence"
  | unaryAssociativity => "UnaryAssociativity"
  | lexerFailed => "LexerConstruction"
  | missingLexer => "MissingLexer"
  | missingCallback => "MissingCallback"

/-- The message of a name. -/
def ofName? (s : String) : Option Message := all.find? (·.name == s)

/-- The English templates. -/
def english : Message → String
  | unexpectedToken => "unexpected token '{0}' ({1})"
  | unexpectedTokenExpecting =>
    "unexpected token '{0}' ({1}), expecting one of {2}"
  | unexpectedEnd => "unexpected end of input"
  | unexpectedEndExpecting => "unexpected end of input, expecting one of {2}"
  | unrecognizedInput => "unrecognized input '{0}'"
  | malformedRule => "rule error [{0}] : {1}"
  | leftRecursion => "left recursion detected :\n{0}"
  | undefinedName => "non-terminal '{0}' used by '{1}' is never defined"
  | missingStart => "starting rule '{0}' is not defined"
  | ebnfInPlain =>
    "rule [{0}] uses EBNF constructs, which the plain parser does not support"
  | invalidOperator => "invalid operator declaration [{0}] : {1}"
  | notAKind => "'{0}' is not a token kind"
  | invalidPrecedence => "'{0}' is not a valid precedence"
  | unaryAssociativity => "{0} operators take no associativity"
  | lexerFailed => "lexer construction failed : {0}"
  | missingLexer => "no lexer configured"
  | missingCallback => "node '{0}' has no reduction callback"

/-- The French templates. -/
def french : Message → String
  | unexpectedToken => "jeton inattendu '{0}' ({1})"
  | unexpectedTokenExpecting =>
    "jeton inattendu '{0}' ({1}), attendu l'un de {2}"
  | unexpectedEnd => "fin d'entrée inattendue"
  | unexpectedEndExpecting => "fin d'entrée inattendue, attendu l'un de {2}"
  | unrecognizedInput => "entrée non reconnue '{0}'"
  | malformedRule => "erreur de règle [{0}] : {1}"
  | leftRecursion => "récursivité à gauche détectée :\n{0}"
  | undefinedName =>
    "le non-terminal '{0}' utilisé par '{1}' n'est jamais défini"
  | missingStart => "la règle de départ '{0}' n'est pas définie"
  | ebnfInPlain =>
    "la règle [{0}] utilise des constructions EBNF, non supportées par l'analyseur simple"
  | invalidOperator => "déclaration d'opérateur invalide [{0}] : {1}"
  | notAKind => "'{0}' n'est pas un type de jeton"
  | invalidPrecedence => "'{0}' n'est pas une précédence valide"
  | unaryAssociativity => "les opérateurs {0} n'ont pas d'associativité"
  | lexerFailed => "échec de construction du lexeur : {0}"
  | missingLexer => "aucun lexeur configuré"
  | missingCallback => "le nœud '{0}' n'a pas de fonction de réduction"

end Message

/-- **The templates of one language.** -/
structure Catalog where
  /-- The language. -/
  locale : Locale
  deriving DecidableEq, Repr, Inhabited

namespace Catalog

/-- The English catalog. -/
def english : Catalog := ⟨.english⟩

/-- The French catalog. -/
def french : Catalog := ⟨.french⟩

/-- The template of a message. -/
def template (c : Catalog) (m : Message) : String :=
  match c.locale with
  | .english => m.english
  | .french => m.french

/-- **The text of a message** with its arguments. -/
def text (c : Catalog) (m : Message) (args : List String) : String :=
  Template.fill (c.template m) args

/-- The catalog with the name of its language. -/
def description (c : Catalog) : Description :=
  .record "Catalog" [("locale", .word c.locale.label)] true

end Catalog

end Descent
