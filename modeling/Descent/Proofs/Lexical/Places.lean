import Descent.Proofs.Lexical.Words

/-!
# Where tokens stand in their text

A lexer reads a text from its first character to its last. What it reads stands
one piece after the other, so the place of a piece is the start advanced over all
that stands before it, and its span reaches over its own bytes (`StandsAt`).

The places are counted in 32-bit words. A text of fewer bytes than the largest
word keeps all counters within theirs: a line and a column grow by one at most
for each character, which takes a byte at least (`Position.Within`). So reading
such a text ends without a fault, and every token and every error that comes out
of it stands where it says (`Automaton.read_places`).

Nothing else about a lexicon matters here. An `Automaton` is any way to cut texts
into pieces without losing a character.
-/

namespace Descent

variable {K : Type}

/-! ## Texts whose places fit -/

namespace Position

/-- **A place some bytes into a text.** Lines and columns are counted from one,
and each character adds one to one of them at most. -/
structure Within (p : Position) (n : Nat) : Prop where
  /-- The offset is the number of bytes. -/
  offset : p.offset.toNat = n
  /-- There are no more lines than bytes, beside the first. -/
  line : p.line.toNat ≤ n + 1
  /-- There are no more columns than bytes, beside the first. -/
  column : p.column.toNat ≤ n + 1

theorem within_start : start.Within 0 where
  offset := rfl
  line := Nat.le_refl 1
  column := Nat.le_refl 1

/-- A number that is fitted in a word is the number, or the largest word. -/
theorem toNat_saturate_eq_min (n : Nat) :
    (saturate n).toNat = min n (UInt32.size - 1) := by
  have hsize : 0 < UInt32.size := by decide
  exact UInt32.toNat_ofNat_of_lt' (by omega)

/-- A number below the size of a word is not changed when it is fitted in. -/
theorem toNat_saturate {n : Nat} (h : n < UInt32.size) :
    (saturate n).toNat = n := by
  rw [toNat_saturate_eq_min, Nat.min_eq_left (by omega)]

/-- The next word is there below the largest. -/
theorem exists_increment {n : UInt32} (h : n.toNat + 1 < UInt32.size) :
    ∃ k, increment n = .ok k ∧ k.toNat = n.toNat + 1 := by
  refine ⟨n + 1, if_pos h, ?_⟩
  rw [UInt32.toNat_add]
  exact Nat.mod_eq_of_lt h

variable {p q : Position} {n : Nat}

/-- **One character further**, the counters still fit. -/
theorem Within.next (h : p.Within n) (c : Char)
    (hfits : n + c.utf8Size + 1 < UInt32.size) :
    ∃ q, p.next c = .ok q ∧ q.Within (n + c.utf8Size) := by
  have hc := c.utf8Size_pos
  have hoffset : (saturate (p.offset.toNat + c.utf8Size)).toNat =
      n + c.utf8Size := by
    rw [h.offset]
    exact toNat_saturate (by omega)
  have hline := h.line
  have hcolumn := h.column
  unfold Position.next
  split
  · obtain ⟨k, hk, hval⟩ := exists_increment (n := p.line) (by omega)
    refine ⟨⟨k, 1, saturate (p.offset.toNat + c.utf8Size)⟩, ?_, hoffset, ?_, ?_⟩
    · simp [hk, bind, Except.bind, pure, Except.pure]
    · show k.toNat ≤ _
      omega
    · show 1 ≤ _
      omega
  · obtain ⟨k, hk, hval⟩ := exists_increment (n := p.column) (by omega)
    refine ⟨⟨p.line, k, saturate (p.offset.toNat + c.utf8Size)⟩, ?_, hoffset, ?_, ?_⟩
    · simp [hk, bind, Except.bind, pure, Except.pure]
    · show p.line.toNat ≤ _
      omega
    · show k.toNat ≤ _
      omega

theorem utf8ByteSize_ofList_cons (c : Char) (cs : List Char) :
    (String.ofList (c :: cs)).utf8ByteSize =
      c.utf8Size + (String.ofList cs).utf8ByteSize := by
  simp [String.ofList_cons]

theorem Within.advanceChars (h : p.Within n) {cs : List Char}
    (hfits : n + (String.ofList cs).utf8ByteSize + 1 < UInt32.size) :
    ∃ q, p.advanceChars cs = .ok q ∧
      q.Within (n + (String.ofList cs).utf8ByteSize) := by
  induction cs generalizing p n with
  | nil => exact ⟨p, rfl, h⟩
  | cons c cs ih =>
    rw [utf8ByteSize_ofList_cons] at hfits ⊢
    obtain ⟨p', hp', hwithin⟩ := h.next c (by omega)
    obtain ⟨q, hq, hwithin'⟩ := ih hwithin (by omega)
    refine ⟨q, ?_, by rwa [← Nat.add_assoc]⟩
    rw [advanceChars_cons, hp']
    exact hq

/-- **Over a text that is not too long, the counters still fit.** -/
theorem Within.advance (h : p.Within n) {text : String}
    (hfits : n + text.utf8ByteSize + 1 < UInt32.size) :
    ∃ q, p.advance text = .ok q ∧ q.Within (n + text.utf8ByteSize) := by
  obtain ⟨cs, rfl⟩ : ∃ cs, text = String.ofList cs :=
    ⟨text.toList, String.ofList_toList.symm⟩
  rw [Position.advance, String.toList_ofList]
  exact h.advanceChars hfits

/-- A place that is reached over a text is as many bytes into it. -/
theorem within_of_advance {text : String} (h : start.advance text = .ok p)
    (hfits : text.utf8ByteSize + 1 < UInt32.size) :
    p.Within text.utf8ByteSize := by
  have hfits' : 0 + text.utf8ByteSize + 1 < UInt32.size := by omega
  obtain ⟨q, hq, hwithin⟩ := within_start.advance hfits'
  obtain rfl := Except.ok.inj (h.symm.trans hq)
  rwa [Nat.zero_add] at hwithin

theorem advance_append (p : Position) (s t : String) :
    p.advance (s ++ t) = (p.advance s).bind (·.advance t) := by
  rw [advance, String.toList_append, advanceChars_append]
  rfl

end Position

/-- **A piece stands in a text** at a place: the place is the start advanced over
what stands before the piece, and the span is that of the bytes of the piece. -/
def StandsAt (source piece : String) (p : Position) (s : Span) : Prop :=
  ∃ before after, source = before ++ piece ++ after ∧
    Position.start.advance before = .ok p ∧
    s.start.toNat = before.utf8ByteSize ∧
    s.stop.toNat = before.utf8ByteSize + piece.utf8ByteSize

variable {source before piece after : String} {p q : Position}

/-- What a lexer reads at a place stands there. -/
theorem standsAt_spanAt (hsource : source = before ++ piece ++ after)
    (hp : Position.start.advance before = .ok p)
    (hfits : source.utf8ByteSize + 1 < UInt32.size) :
    StandsAt source piece p (Lexicon.spanAt p piece) := by
  have hsize := congrArg String.utf8ByteSize hsource
  rw [String.utf8ByteSize_append, String.utf8ByteSize_append] at hsize
  have hoffset := (Position.within_of_advance hp (by omega)).offset
  refine ⟨before, after, hsource, hp, ?_, ?_⟩
  · rw [← hoffset]
    exact Position.toNat_saturate (by omega)
  · rw [← hoffset]
    exact Position.toNat_saturate (by omega)

/-- The empty piece stands at the end of a text. -/
theorem standsAt_end (hp : Position.start.advance source = .ok p)
    (hfits : source.utf8ByteSize + 1 < UInt32.size) :
    StandsAt source "" p (.point p.offset) := by
  have hoffset := (Position.within_of_advance hp hfits).offset
  refine ⟨source, "", by simp, hp, hoffset, ?_⟩
  show p.offset.toNat = _
  simpa using hoffset

/-! ## Lexemes at their places -/

/-- **The tokens of a list stand in a text**, none is empty, and the list ends
where the text does. -/
structure TokenList.PlacedIn (tokens : TokenList K) (source : String) : Prop where
  /-- Each token is a piece of the text, and stands where it says. -/
  standsAt : ∀ t ∈ tokens.toList,
    t.text ≠ "" ∧ StandsAt source t.text t.position t.span
  /-- The list ends where the text does. -/
  stop : Position.start.advance source = .ok tokens.stop

/-- **A lexical error stands in a text**, and is about something. -/
def LexicalError.PlacedIn (e : LexicalError) (source : String) : Prop :=
  e.text ≠ "" ∧ StandsAt source e.text e.position e.span

namespace Lexicon

/-- **Placing the lexemes of a text** that is not too long gives tokens that stand
in it and its end, or an error that stands in it. -/
theorem place_places {ls : List (Lexeme K)}
    (hne : ∀ l ∈ ls, l.text ≠ [])
    (hsource : source = before ++ String.ofList (ls.flatMap (·.text)))
    (hp : Position.start.advance before = .ok p)
    (hfits : source.utf8ByteSize + 1 < UInt32.size) :
    (∃ ts stop, place p ls = .ok (.ok (ts, stop)) ∧
      Position.start.advance source = .ok stop ∧
      ∀ t ∈ ts, t.text ≠ "" ∧ StandsAt source t.text t.position t.span) ∨
    ∃ e : LexicalError, place p ls = .ok (.error e) ∧ e.PlacedIn source := by
  induction ls generalizing p before with
  | nil =>
    refine .inl ⟨[], p, rfl, ?_, fun _ h => absurd h List.not_mem_nil⟩
    rw [hsource]
    simpa using hp
  | cons l ls ih =>
    obtain ⟨hl, hne⟩ := List.forall_mem_cons.mp hne
    rw [List.flatMap_cons, String.ofList_append, ← String.append_assoc] at hsource
    have htext : String.ofList l.text ≠ "" := by simpa using hl
    have hstands := standsAt_spanAt hsource hp hfits
    -- the text up to the end of the lexeme is not too long either
    have hsize := congrArg String.utf8ByteSize hsource
    rw [String.utf8ByteSize_append] at hsize
    have hbefore : 0 + (before ++ String.ofList l.text).utf8ByteSize + 1 <
        UInt32.size := by omega
    obtain ⟨p', hp', _⟩ := Position.within_start.advance hbefore
    have hadvance : p.advance (String.ofList l.text) = .ok p' := by
      rwa [Position.advance_append, hp] at hp'
    have hrest := ih hne hsource hp'
    cases hr : l.reading with
    | unrecognized =>
      let text := String.ofList l.text
      exact .inr ⟨⟨text, p, spanAt p text⟩, by simp only [place, hr, text],
        htext, hstands⟩
    | skipped =>
      simp only [place, hr, hadvance, Except.bind]
      exact hrest
    | token kind =>
      simp only [place, hr, hadvance, bind, Except.bind]
      rcases hrest with ⟨ts, stop, hplace, hstop, hts⟩ | ⟨e, hplace, he⟩
      · simp only [hplace]
        exact .inl ⟨_, stop, rfl, hstop,
          List.forall_mem_cons.mpr ⟨⟨htext, hstands⟩, hts⟩⟩
      · simp only [hplace]
        exact .inr ⟨e, rfl, he⟩

end Lexicon

/-- **A way to cut texts into lexemes** that keeps every character and cuts off
one at least each time. What is not said to be read or unrecognized, between two
lexemes or at the end, is a lexeme that is skipped. -/
structure Automaton (K : Type) where
  /-- The lexemes of a text. -/
  lexemes : List Char → List (Lexeme K)
  /-- The lexemes put together are the text. -/
  flatMap_text : ∀ cs, (lexemes cs).flatMap (·.text) = cs
  /-- No lexeme is empty. -/
  text_ne_nil : ∀ cs, ∀ l ∈ lexemes cs, l.text ≠ []

namespace Automaton

/-- **The lexer of an automaton**: each lexeme at its place, up to the first that
is unrecognized. -/
def lexer (a : Automaton K) : Lexer K where
  read source := do
    match ← Lexicon.place .start (a.lexemes source.toList) with
    | .error e => return .error e
    | .ok (tokens, stop) => return .ok (.withStop tokens stop)

/-- **Reading a text that is not too long has an answer**: tokens that stand in
the text, or an error that stands in it. -/
theorem read_places (a : Automaton K) {text : String}
    (hfits : text.utf8ByteSize + 1 < UInt32.size) :
    (∃ tokens, a.lexer.read text = .ok (.ok tokens) ∧ tokens.PlacedIn text) ∨
    ∃ e, a.lexer.read text = .ok (.error e) ∧ e.PlacedIn text := by
  have hsource : text = "" ++
      String.ofList ((a.lexemes text.toList).flatMap (·.text)) := by
    simp [a.flatMap_text]
  rcases Lexicon.place_places (a.text_ne_nil text.toList) hsource
      (p := .start) rfl hfits with ⟨ts, stop, hplace, hstop, hts⟩ | ⟨e, hplace, he⟩
  · refine .inl ⟨.withStop ts stop, ?_, fun t ht => ?_, hstop⟩
    · simp [lexer, hplace, bind, Except.bind, pure, Except.pure]
    · rw [TokenList.toList_withStop] at ht
      exact hts t ((List.takeWhile_prefix _).subset ht)
  · refine .inr ⟨e, ?_, he⟩
    simp [lexer, hplace, bind, Except.bind, pure, Except.pure]

end Automaton

namespace Lexicon

/-- No lexeme of a lexicon is empty. -/
theorem text_ne_nil_of_mem_lexemes (lexicon : Lexicon K) {cs : List Char}
    {l : Lexeme K} (h : l ∈ lexicon.lexemes cs) : l.text ≠ [] := by
  obtain ⟨ds, n, hds, hlongest, htext⟩ := exists_longest_of_mem_lexemes h
  have hpos := lexicon.longest_pos hds
  rw [hlongest] at hpos
  rw [htext]
  exact fun hnil => (List.take_eq_nil_iff.mp hnil).elim (by omega) hds

/-- A lexicon as an automaton. -/
def automaton (lexicon : Lexicon K) : Automaton K where
  lexemes := lexicon.lexemes
  flatMap_text := lexicon.flatMap_text_lexemes
  text_ne_nil _ _ := lexicon.text_ne_nil_of_mem_lexemes

theorem lexer_automaton (lexicon : Lexicon K) :
    lexicon.automaton.lexer = lexicon.lexer := rfl

end Lexicon

end Descent
