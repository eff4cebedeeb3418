import Descent.Diagnostic.ParseError
import Descent.Matching.Matcher
import Descent.Tree.Reduction

/-!
# Parsing a token list

A token list is in the language of a grammar if the start matches and no
token is left over. Otherwise the error is the furthest failure of the run:
the token there, or the end of the input, and the kinds expected in its
place. Tokens left over are a failure where the match ends.

The step budget is chosen so that it suffices for every grammar without left
recursion: before a run takes its next token it enters a non-terminal at most
once per name on its way, and inside a non-terminal it goes no deeper than the
rules are long.
-/

namespace Descent

variable {K α : Type}

namespace Clause

mutual

/-- The steps between entering a clause and entering its innermost parts. -/
def weight : Clause K → Nat
  | token .. | reference .. => 1
  | group members => weightAll members + 1
  | choice branches => weightAll branches + 1
  | optional body | star body | plus body => weight body + 2

/-- The steps between entering a list of clauses and entering the innermost
parts of its members. -/
def weightAll : List (Clause K) → Nat
  | [] => 1
  | c :: cs => weight c + weightAll cs + 1

end

end Clause

/-- The steps between trying some rules and entering their innermost parts. -/
def Rule.weightAll : List (Rule K α) → Nat
  | [] => 1
  | r :: rs => Clause.weightAll r.clauses + weightAll rs + 1

/-- The steps that some non-terminals are deep, all taken together. -/
def NonTerminal.weightAll : List (NonTerminal K α) → Nat
  | [] => 0
  | n :: ns => Rule.weightAll n.rules + weightAll ns + 4

/-- The steps that a grammar is deep. -/
def Grammar.weight (g : Grammar K α) : Nat := NonTerminal.weightAll g.nonTerminals

namespace Matcher

/-- **A step budget that suffices** for every grammar without left
recursion. -/
def budget (m : Matcher K α) : Nat :=
  (m.tokens.length + 1) * (m.grammar.size + 1) * (m.grammar.weight + 5)

variable [DecidableEq K] [TokenKind K]

/-- The furthest failure of a run as an error: what stands at its index, and
the kinds expected there. -/
def unexpected (m : Matcher K α) (r : Run K) : UnexpectedToken K :=
  let (position, span) := m.tokens.location r.errorIndex
  ⟨m.tokens.get? r.errorIndex, position, span, r.furthest.expected⟩

/-- Matches a name against all tokens: a match that leaves tokens over fails
where it ends. -/
def matchAll (m : Matcher K α) (start : String) : Outcome K (Tree K α) :=
  (m.nonTerminal m.budget start .start).bind fun tree r =>
    if m.tokens.length ≤ r.index then .matched tree r else .failed r.reach

/-- **The tree of all tokens**, from a name. -/
def parse (m : Matcher K α) (start : String) :
    Except Fault (Except (ParseError K) (Tree K α)) :=
  if m.grammar.contains start then
    match m.matchAll start with
    | .exhausted => .error .exhausted
    | .failed r => .ok (.error (.unexpected (m.unexpected r)))
    | .matched tree _ => .ok (.ok tree)
  else .ok (.error (.unknownStart start))

/-- **The output of all tokens**, from a name. -/
def evaluate (m : Matcher K α) (start : String) :
    Except Fault (Except (ParseError K) α) := do
  match ← m.parse start with
  | .error e => return .error e
  | .ok tree =>
    match tree.reduce with
    | .error e => return .error (.missingCallback e.node)
    | .ok x => return .ok x

end Matcher

end Descent
