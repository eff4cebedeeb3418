import Descent.Text.Extending
import Descent.Text.Unprintable

/-!
# Quoted texts

A text inside double quotes, in which nothing is left that a reader could
not see or could mistake for the end of the text: the quote and the
backslash follow a backslash, the common controls have letters, and every
other character that shows nothing of its own is written as its code point
in hexadecimal.
-/

namespace Descent

/-- The hexadecimal digits of a number, in lower case. -/
def hexDigits (n : Nat) : List Char := Nat.toDigits 16 n

/-- **How a character is written inside quotes.** -/
def escapeChar (c : Char) : List Char :=
  if c = '"' then ['\\', '"']
  else if c = '\\' then ['\\', '\\']
  else if c = '\n' then ['\\', 'n']
  else if c = '\r' then ['\\', 'r']
  else if c = '\t' then ['\\', 't']
  else if c = '\x00' then ['\\', '0']
  else if isUnprintable c || isExtending c then
    ['\\', 'u', '\x7b'] ++ hexDigits c.toNat ++ ['\x7d']
  else [c]

/-- The characters of a text inside quotes, each escaped where it has to
be. -/
def escapeChars (cs : List Char) : List Char :=
  cs.flatMap escapeChar

/-- **A text in double quotes.** -/
def quoted (text : String) : String :=
  String.ofList ('"' :: escapeChars text.toList ++ ['"'])

@[simp] theorem escapeChars_nil : escapeChars [] = [] := rfl

@[simp] theorem escapeChars_cons (c : Char) (cs : List Char) :
    escapeChars (c :: cs) = escapeChar c ++ escapeChars cs := rfl

@[simp] theorem escapeChars_append (cs ds : List Char) :
    escapeChars (cs ++ ds) = escapeChars cs ++ escapeChars ds :=
  List.flatMap_append

end Descent
