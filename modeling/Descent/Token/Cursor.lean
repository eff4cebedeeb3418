import Descent.Token.List

/-!
# Cursors

A cursor is an index into a token list, for hosts that read tokens by hand.
It moves over one token at a time; it can be sent back to any index it has
stood at, and to no index past the end of the list.
-/

namespace Descent

/-- **A place in a token list.** -/
structure Cursor (K : Type) where
  /-- The tokens read. -/
  tokens : TokenList K
  /-- The index of the token to be read next. -/
  index : Nat

namespace Cursor

/-- An index that a cursor stood at. -/
structure Mark where
  /-- The index. -/
  index : Nat
  deriving DecidableEq

/-- The index inside its name. -/
def Mark.description (m : Mark) : Description :=
  .apply "CursorSnapshot" [.nat m.index]

variable {K : Type}

/-- The cursor before the first token. -/
def ofTokens (tokens : TokenList K) : Cursor K := ⟨tokens, 0⟩

/-- The token to be read next. -/
def current (c : Cursor K) : Option (Token K) := c.tokens.get? c.index

/-- The kind of the token to be read next. -/
def currentKind (c : Cursor K) : Option K := c.current.map (·.kind)

/-- Whether no token is left. -/
def atEnd (c : Cursor K) : Bool := c.tokens.length ≤ c.index

/-- Whether the next token is of a kind. -/
def check [DecidableEq K] (c : Cursor K) (kind : K) : Bool :=
  c.currentKind == some kind

/-- Reads a token, if one is left. -/
def advance (c : Cursor K) : Option (Token K) × Cursor K :=
  match c.current with
  | some t => (some t, { c with index := c.index + 1 })
  | none => (none, c)

/-- Reads a token of a kind, if that is what comes next. -/
def eat [DecidableEq K] (c : Cursor K) (kind : K) :
    Option (Token K) × Cursor K :=
  if c.check kind then c.advance else (none, c)

/-- The index stood at. -/
def mark (c : Cursor K) : Mark := ⟨c.index⟩

/-- Whether the cursor stands past a mark. -/
def isPast (c : Cursor K) (m : Mark) : Bool := m.index < c.index

/-- Goes to an index, which must not lie past the end. -/
def seek (c : Cursor K) (index : Nat) : Except Fault (Cursor K) :=
  if index ≤ c.tokens.length then .ok { c with index }
  else .error (.cursorOutOfBounds index c.tokens.length)

/-- Goes back to a mark. -/
def restore (c : Cursor K) (m : Mark) : Except Fault (Cursor K) :=
  c.seek m.index

/-- A cursor that stands in its list still does after `advance`. -/
theorem index_advance_le {c : Cursor K} (h : c.index ≤ c.tokens.length) :
    c.advance.2.index ≤ c.tokens.length := by
  unfold advance
  split
  · rename_i hc
    have : ¬ c.tokens.length ≤ c.index := fun hle => by
      simp [current, TokenList.get?_eq_none_iff.mpr hle] at hc
    simp; omega
  · exact h

end Cursor

end Descent
