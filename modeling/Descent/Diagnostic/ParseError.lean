import Descent.Diagnostic.Catalog
import Descent.Diagnostic.Ruled
import Descent.Lexical.Lexer

/-!
# Parse errors

A text that cannot be parsed has one error. Most often a token was met that
nothing allows, or the end of the input where a token was needed; the error
then says which kinds of token could have stood there. Beside that, a text
may hold something that is no token, a parse may be asked to start from a name
that no grammar declares, and a tree may need a callback that it lacks.

Each error knows its code, its place, its message in every language and its
report over the source.
-/

namespace Descent

/-- **A token that nothing allows**, or the end of the input too early. -/
structure UnexpectedToken (K : Type) where
  /-- The token met; none at the end of the input. -/
  token : Option (Token K)
  /-- The place of the token or of the end. -/
  position : Position
  /-- The bytes of the token or the empty span at the end. -/
  span : Span
  /-- The kinds that could have stood there. -/
  expected : List K
  deriving DecidableEq

/-- **What can be wrong with a text.** -/
inductive ParseError (K : Type) where
  /-- A token, or the end, that nothing allows. -/
  | unexpected (error : UnexpectedToken K)
  /-- A text that no token begins with. -/
  | lexical (error : LexicalError)
  /-- The name to start from is not declared. -/
  | unknownStart (name : String)
  /-- A node of the tree needs a callback and has none. -/
  | missingCallback (name : String)
  deriving DecidableEq

namespace UnexpectedToken

variable {K : Type}

/-- Whether the input ended too early. -/
def isAtEnd (e : UnexpectedToken K) : Bool := e.token.isNone

/-- The code of the error. -/
def code (e : UnexpectedToken K) : Code :=
  if e.isAtEnd then .unexpectedEnd else .unexpectedToken

/-- Which message tells the error. -/
def message (e : UnexpectedToken K) : Message :=
  match e.isAtEnd, e.expected.isEmpty with
  | true, true => .unexpectedEnd
  | true, false => .unexpectedEndExpecting
  | false, true => .unexpectedToken
  | false, false => .unexpectedTokenExpecting

variable [TokenKind K]

/-- The names of the expected kinds, parted by commas. -/
def expectedNames (e : UnexpectedToken K) : String :=
  ", ".intercalate (e.expected.map TokenKind.name)

/-- **The error in the language of a catalog.** -/
def text (e : UnexpectedToken K) (catalog : Catalog) : String :=
  let (text, kind) := match e.token with
    | some t => (t.text, TokenKind.name t.kind)
    | none => ("", "")
  catalog.text e.message [text, kind, e.expectedNames]

/-- The error with the names of its parts. -/
def description (e : UnexpectedToken K) : Description :=
  .record "UnexpectedTokenSyntaxError"
    [("unexpected", .option (e.token.map (·.description))),
      ("position", e.position.description),
      ("expected", .list (e.expected.map fun k => .word (TokenKind.label k)))]
    true

end UnexpectedToken

/-- A lexical error with the names of its parts. -/
def LexicalError.description (e : LexicalError) : Description :=
  .record "LexicalError"
    [("text", .text e.text), ("position", e.position.description),
      ("span", .word e.span.describe)] true

namespace ParseError

variable {K : Type}

/-- The code of the error. -/
def code : ParseError K → Code
  | unexpected e => e.code
  | lexical _ => .lexical
  | unknownStart _ => .missingStart
  | missingCallback _ => .missingCallback

/-- Where the error is; an error that is at no place counts as being at the
start. -/
def position : ParseError K → Position
  | unexpected e => e.position
  | lexical e => e.position
  | unknownStart _ | missingCallback _ => .start

/-- The bytes that the error is about. -/
def span : ParseError K → Span
  | unexpected e => e.span
  | lexical e => e.span
  | unknownStart _ | missingCallback _ => .nowhere

/-- The errors in the order of their places, the furthest first. Errors at one
place keep their order. -/
def furthestFirst (errors : List (ParseError K)) : List (ParseError K) :=
  errors.mergeSort fun a b => (b.position.compare a.position).isLE

variable [TokenKind K]

/-- **The error in the language of a catalog.** -/
def text (catalog : Catalog) : ParseError K → String
  | unexpected e => e.text catalog
  | lexical e => catalog.text .unrecognizedInput [e.text]
  | unknownStart name => catalog.text .missingStart [name]
  | missingCallback name => catalog.text .missingCallback [name]

/-- What is written under the place of the error: the expected kinds. -/
def label : ParseError K → String
  | unexpected e => e.expectedNames
  | _ => ""

/-- What the report of the error is about: its own range of bytes. -/
def request (e : ParseError K) (catalog : Catalog) : Report.Request :=
  ⟨e.code, e.text catalog, e.span.start.toNat, e.span.stop.toNat, e.label⟩

/-- **The report of the error** over the source it was found in, as a renderer draws
it. -/
def drawing (R : Report.Renderer) (e : ParseError K) (source : String)
    (catalog : Catalog) : Report.Drawing :=
  Report.drawing R (e.request catalog) source

/-- The text of the report, drawn for a terminal. -/
def report (e : ParseError K) (source : String) (catalog : Catalog) : String :=
  Report.render (e.request catalog) source

/-- The error with the case it is and the names of its parts. -/
def description : ParseError K → Description
  | unexpected e => .apply "UnexpectedToken" [e.description]
  | lexical e => .apply "Lexical" [e.description]
  | unknownStart name =>
    .record "UnknownStartingRule" [("name", .text name)] true
  | missingCallback name => .record "MissingCallback" [("name", .text name)] true

end ParseError

end Descent
