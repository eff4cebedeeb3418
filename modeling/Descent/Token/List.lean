import Descent.Token.Basic

/-!
# Token lists

What a matcher reads is a list of tokens of which only a part can be matched:
everything before the first mark of the end of the stream. The list also
knows the place where the text ends, which is where an error at the end of
the input is reported: the place of the mark if there is one, else the place
after the last token, unless the one who read the text says otherwise.
-/

namespace Descent

/-- **A list of tokens to be matched.** -/
structure TokenList (K : Type) where
  /-- All tokens, the end mark and what follows it included. -/
  items : Array (Token K)
  /-- The number of tokens that can be matched. -/
  length : Nat
  /-- The place where the text ends. -/
  stop : Position
  /-- Only tokens of the list can be matched. -/
  length_le : length ≤ items.size

namespace TokenList

variable {K : Type}

/-- The tokens before the first mark of the end of the stream. -/
def beforeMark (tokens : List (Token K)) : List (Token K) :=
  tokens.takeWhile (!·.isEndMark)

/-- The place where a list of tokens ends: at its first end mark, else after
its last token. -/
def stopOf (tokens : List (Token K)) : Except Fault Position :=
  match tokens.find? (·.isEndMark) with
  | some mark => .ok mark.position
  | none =>
    match tokens.getLast? with
    | some last => last.endPosition
    | none => .ok .start

/-- The tokens given, with the end of the text given as well. -/
def withStop (tokens : List (Token K)) (stop : Position) : TokenList K where
  items := tokens.toArray
  length := (beforeMark tokens).length
  stop := stop
  length_le := by
    simpa [beforeMark] using (List.takeWhile_prefix _).length_le

/-- **The tokens given**, ending where `stopOf` says. -/
def ofTokens (tokens : List (Token K)) : Except Fault (TokenList K) := do
  return withStop tokens (← stopOf tokens)

/-- The tokens given, ending where the caller says. The list is formed as by
`ofTokens` first, with its faults. -/
def ofTokensWithStop (tokens : List (Token K)) (stop : Position) :
    Except Fault (TokenList K) := do
  let list ← ofTokens tokens
  return { list with stop }

/-- The list without tokens. -/
def empty : TokenList K := withStop [] .start

/-- The token at an index, if it can be matched. -/
def get? (tokens : TokenList K) (index : Nat) : Option (Token K) :=
  if index < tokens.length then tokens.items[index]? else none

/-- The tokens that can be matched. -/
def toList (tokens : TokenList K) : List (Token K) :=
  tokens.items.toList.take tokens.length

/-- Whether no token can be matched. -/
def isEmpty (tokens : TokenList K) : Bool := tokens.length == 0

/-- The kinds of the tokens that can be matched. -/
def kinds (tokens : TokenList K) : List K := tokens.toList.map (·.kind)

/-- The empty span at the end of the text. -/
def stopSpan (tokens : TokenList K) : Span := .point tokens.stop.offset

/-- The place of the token at an index, or of the end of the text where
there is no such token. -/
def location (tokens : TokenList K) (index : Nat) : Position × Span :=
  match tokens.get? index with
  | some t => (t.position, t.span)
  | none => (tokens.stop, tokens.stopSpan)

/-- All tokens, the number of matchable ones, and the end. -/
def description [TokenKind K] (tokens : TokenList K) : Description :=
  .record "TokenList"
    [("tokens", .list (tokens.items.toList.map Token.description)),
      ("limit", .nat tokens.length), ("end", tokens.stop.description)] true

/-! ## The matchable tokens as a list -/

@[simp] theorem toList_withStop (tokens : List (Token K)) (stop : Position) :
    (withStop tokens stop).toList = beforeMark tokens := by
  simp only [toList, withStop, beforeMark]
  exact List.prefix_iff_eq_take.mp (List.takeWhile_prefix _) |>.symm

@[simp] theorem length_toList (tokens : TokenList K) :
    tokens.toList.length = tokens.length := by
  simp [toList, Nat.min_eq_left tokens.length_le]

/-- **An index finds what the list of matchable tokens has there.** -/
theorem get?_eq (tokens : TokenList K) (index : Nat) :
    tokens.get? index = tokens.toList[index]? := by
  unfold get? toList
  have := tokens.length_le
  split <;> rename_i h
  · simp [h]
  · simp; omega

theorem get?_eq_none_iff {tokens : TokenList K} {index : Nat} :
    tokens.get? index = none ↔ tokens.length ≤ index := by
  simp [get?_eq]

theorem lt_length_of_get? {tokens : TokenList K} {index : Nat} {t : Token K}
    (h : tokens.get? index = some t) : index < tokens.length :=
  Nat.lt_of_not_le fun hle => by
    rw [get?_eq_none_iff.mpr hle] at h
    cases h

/-- An index finds the kind of the token that it finds. -/
theorem map_kind_get? (tokens : TokenList K) (index : Nat) :
    (tokens.get? index).map (·.kind) = tokens.kinds[index]? := by
  rw [get?_eq, kinds, List.getElem?_map]

end TokenList

end Descent
