/-!
# Message templates

A template is a text with numbered places for arguments, each written as its
number between braces. Filling a template goes over it once: where a place
stands the argument is put in as it is, without a second look at it, and
nothing if there is no argument of that number. A brace that opens no place
is an ordinary character.

A number may begin with a plus sign and has to be below 2⁶⁴.
-/

namespace Descent

/-- The value of a non-empty text of decimal digits. -/
def decimal? (cs : List Char) : Option Nat :=
  if !cs.isEmpty && cs.all fun c => '0' ≤ c && c ≤ '9' then
    some (cs.foldl (fun n c => 10 * n + (c.toNat - '0'.toNat)) 0)
  else none

/-- The value of a text of decimal digits, if it is below a bound. -/
def decimalBelow? (bound : Nat) (cs : List Char) : Option Nat :=
  (decimal? cs).filter (· < bound)

namespace Template

/-- What the number of a place has to stay below: 2⁶⁴. -/
def indexBound : Nat := 0x10000000000000000

/-- The number between the braces of a place. -/
def index? : List Char → Option Nat
  | '+' :: cs => decimalBelow? indexBound cs
  | cs => decimalBelow? indexBound cs

/-- **The place that is opened in front of some text**: its number, and the
number of characters up to and with its closing brace. -/
def place? (cs : List Char) : Option (Nat × Nat) :=
  let inner := cs.takeWhile (· != '\x7d')
  if inner.length < cs.length then
    (index? inner).map fun i => (i, inner.length + 1)
  else none

/-- Fills a template of which the first `inside` characters belong to a place
that is already filled. -/
def fillFrom (args : List String) : (inside : Nat) → List Char → List Char
  | _, [] => []
  | inside + 1, _ :: cs => fillFrom args inside cs
  | 0, c :: cs =>
    if c = '\x7b' then
      match place? cs with
      | some (i, n) => (args.getD i "").toList ++ fillFrom args n cs
      | none => c :: fillFrom args 0 cs
    else c :: fillFrom args 0 cs

/-- **Fills a template** with arguments. -/
def fill (template : String) (args : List String) : String :=
  String.ofList (fillFrom args 0 template.toList)

theorem fillFrom_eq_drop (args : List String) (n : Nat) (cs : List Char) :
    fillFrom args n cs = fillFrom args 0 (cs.drop n) := by
  induction n generalizing cs with
  | zero => simp
  | succ n ih =>
    cases cs with
    | nil => simp [fillFrom]
    | cons c cs => rw [fillFrom, List.drop_succ_cons, ih]

end Template

end Descent
