import Descent.Lexical.Lexer

/-!
# The words of a text

What a parser goes by are the words of a text: which kinds of token it has, and
what is written for each. Where the tokens stand matters to reports alone. A
text is cut into words by a lexicon if every lexeme of it is read and those that
are not skipped are the words (`Lexicon.Cuts`). Every word is what a lexical rule
of its kind reads somewhere (`Lexicon.Cuts.exists_rule`).

A lexer made from a lexicon gives tokens with these words exactly if the places
in the text fit their counters (`Lexicon.read_eq_ok`, `Lexicon.exists_read`);
whether they do does not depend on how the text is cut.
-/

namespace Descent

variable {K : Type}

/-- A token without its place: its kind and what is written. -/
def Token.word (t : Token K) : K × String := (t.kind, t.text)

/-- The word that a lexeme is, if it is one. -/
def Lexeme.word? (l : Lexeme K) : Option (K × String) :=
  match l.reading with
  | .token kind => some (kind, String.ofList l.text)
  | .skipped | .unrecognized => none

namespace Lexicon

variable {lexicon : Lexicon K} {p q : Position} {ls : List (Lexeme K)}
  {ts : List (Token K)}

/-- **A text is cut into words**: every lexeme of it is read, and the words are
the lexemes that are not skipped. -/
def Cuts (lexicon : Lexicon K) (cs : List Char) (ws : List (K × String)) :
    Prop :=
  (∀ l ∈ lexicon.lexemes cs, l.reading ≠ .unrecognized) ∧
    (lexicon.lexemes cs).filterMap (·.word?) = ws

theorem cuts_nil (lexicon : Lexicon K) : lexicon.Cuts [] [] :=
  ⟨fun _ h => absurd h List.not_mem_nil, rfl⟩

/-- A text is cut in one way. -/
theorem Cuts.unique {cs : List Char} {ws vs : List (K × String)}
    (hws : lexicon.Cuts cs ws) (hvs : lexicon.Cuts cs vs) : ws = vs :=
  hws.2.symm.trans hvs.2

/-- The lexemes of a text begin with what is read at its head. -/
theorem lexemes_append {c : Char} {cs rest : List Char} {reading : Reading K}
    (h : lexicon.longest (c :: (cs ++ rest)) = (reading, cs.length + 1)) :
    lexicon.lexemes (c :: (cs ++ rest)) =
      ⟨reading, c :: cs⟩ :: lexicon.lexemes rest := by
  rw [lexemes_cons, h]
  simp

/-- **A word is cut off** where it is what is read at the head of the text. -/
theorem Cuts.token {c : Char} {cs rest : List Char} {kind : K}
    {ws : List (K × String)}
    (h : lexicon.longest (c :: (cs ++ rest)) = (.token kind, cs.length + 1))
    (hrest : lexicon.Cuts rest ws) :
    lexicon.Cuts (c :: (cs ++ rest)) ((kind, String.ofList (c :: cs)) :: ws) := by
  obtain ⟨hread, hws⟩ := hrest
  rw [Cuts, lexemes_append h]
  refine ⟨List.forall_mem_cons.mpr ⟨fun h => ?_, hread⟩, ?_⟩
  · cases h
  · rw [List.filterMap_cons, hws]
    rfl

/-- What is skipped is no word. -/
theorem Cuts.skip {c : Char} {cs rest : List Char} {ws : List (K × String)}
    (h : lexicon.longest (c :: (cs ++ rest)) = (.skipped, cs.length + 1))
    (hrest : lexicon.Cuts rest ws) : lexicon.Cuts (c :: (cs ++ rest)) ws := by
  obtain ⟨hread, hws⟩ := hrest
  rw [Cuts, lexemes_append h]
  refine ⟨List.forall_mem_cons.mpr ⟨fun h => ?_, hread⟩, ?_⟩
  · cases h
  · rw [List.filterMap_cons, hws]
    rfl

/-! ## Where words come from -/

theorem foldl_better_mem (candidates : List (Reading K × Nat))
    (best : Reading K × Nat) :
    candidates.foldl better best = best ∨
      candidates.foldl better best ∈ candidates := by
  induction candidates generalizing best with
  | nil => exact .inl rfl
  | cons a as ih =>
    rw [List.foldl_cons]
    rcases ih (better best a) with h | h
    · rw [h, better]
      split
      · exact .inr List.mem_cons_self
      · exact .inl rfl
    · exact .inr (List.mem_cons_of_mem _ h)

/-- What is read as a token is read by a rule of its kind. -/
theorem exists_rule_of_longest {cs : List Char} {kind : K} {n : Nat}
    (h : lexicon.longest cs = (.token kind, n)) :
    ∃ rule ∈ lexicon, rule.kind? = some kind ∧
      rule.pattern.length? cs = some n := by
  simp only [longest] at h
  split at h
  · unfold unread at h
    split at h <;> cases h
  · rcases foldl_better_mem (lexicon.candidates cs) (.unrecognized, 0) with
      hbest | hbest
    · rw [hbest] at h
      cases h
    · rw [h] at hbest
      obtain ⟨rule, hrule, hlen⟩ := List.mem_filterMap.mp hbest
      obtain ⟨m, hm, heq⟩ := Option.map_eq_some_iff.mp hlen
      obtain ⟨hreading, rfl⟩ := Prod.mk.inj heq
      refine ⟨rule, hrule, ?_, hm⟩
      unfold readingOf at hreading
      split at hreading
      · next k hk =>
        obtain rfl := Reading.token.inj hreading
        exact hk
      · cases hreading

/-- A lexeme is what is read at the head of some text that is not empty. -/
theorem exists_longest_of_mem_lexemes {cs : List Char} {l : Lexeme K}
    (h : l ∈ lexicon.lexemes cs) :
    ∃ ds n, ds ≠ [] ∧ lexicon.longest ds = (l.reading, n) ∧
      l.text = ds.take n := by
  induction hn : cs.length using Nat.strongRecOn generalizing cs with
  | ind n ih =>
    cases cs with
    | nil => exact absurd h List.not_mem_nil
    | cons c cs =>
      rw [lexemes_cons] at h
      rcases List.mem_cons.mp h with rfl | h
      · exact ⟨c :: cs, _, List.cons_ne_nil c cs, rfl, rfl⟩
      · have hpos := lexicon.longest_pos (List.cons_ne_nil c cs)
        refine ih _ ?_ h rfl
        rw [← hn, List.length_drop, List.length_cons]
        omega

/-- **Every word is what a rule of its kind reads** at the head of some text. -/
theorem Cuts.exists_rule {cs : List Char} {ws : List (K × String)}
    (h : lexicon.Cuts cs ws) {w : K × String} (hw : w ∈ ws) :
    ∃ rule ∈ lexicon, rule.kind? = some w.1 ∧
      ∃ ds n, rule.pattern.length? ds = some n ∧
        w.2 = String.ofList (ds.take n) := by
  rw [← h.2] at hw
  obtain ⟨l, hl, hword⟩ := List.mem_filterMap.mp hw
  obtain ⟨ds, n, _, hlongest, htext⟩ := exists_longest_of_mem_lexemes hl
  unfold Lexeme.word? at hword
  split at hword
  · next kind hkind =>
    rw [hkind] at hlongest
    obtain rfl := Option.some.inj hword
    obtain ⟨rule, hrule, hk, hlen⟩ := exists_rule_of_longest hlongest
    exact ⟨rule, hrule, hk, ds, n, hlen, congrArg String.ofList htext⟩
  · cases hword
  · cases hword

/-! ## Tokens and their words -/

theorem advance_ofList (p : Position) (cs : List Char) :
    p.advance (String.ofList cs) = p.advanceChars cs := by
  rw [Position.advance, String.toList_ofList]

/-- **The tokens of some lexemes**: the words among them, each at its place from
the first to the last. -/
theorem place_eq_ok (h : place p ls = .ok (.ok (ts, q))) :
    (∀ l ∈ ls, l.reading ≠ .unrecognized) ∧
      ls.filterMap (·.word?) = ts.map Token.word ∧
      (∀ t ∈ ts, t.isEndMark = false) ∧
      p.advanceChars (ls.flatMap (·.text)) = .ok q := by
  induction ls generalizing p ts with
  | nil =>
    obtain ⟨rfl, rfl⟩ := Prod.mk.inj (Except.ok.inj (Except.ok.inj h))
    exact ⟨fun _ h => absurd h List.not_mem_nil, rfl,
      fun _ h => absurd h List.not_mem_nil, rfl⟩
  | cons l ls ih =>
    rw [place, advance_ofList] at h
    rw [List.flatMap_cons, Position.advanceChars_append]
    cases hadvance : p.advanceChars l.text with
    | error fault =>
      cases hr : l.reading <;> simp [hr, hadvance, bind, Except.bind] at h
    | ok p' =>
      cases hr : l.reading with
      | unrecognized => simp [hr] at h
      | skipped =>
        simp only [hr, hadvance, Except.bind] at h
        obtain ⟨hread, hwords, hmarks, hstop⟩ := ih h
        refine ⟨List.forall_mem_cons.mpr ⟨by simp [hr], hread⟩, ?_, hmarks, hstop⟩
        rw [List.filterMap_cons, Lexeme.word?, hr, hwords]
      | token kind =>
        simp only [hr, hadvance, bind, Except.bind] at h
        split at h
        · cases h
        · next answer hplace =>
          cases answer with
          | error e => simp [pure, Except.pure] at h
          | ok answer =>
            obtain ⟨us, stop⟩ := answer
            simp only [pure, Except.pure, Except.ok.injEq, Prod.mk.injEq] at h
            obtain ⟨rfl, rfl⟩ := h
            obtain ⟨hread, hwords, hmarks, hstop⟩ := ih hplace
            refine ⟨List.forall_mem_cons.mpr ⟨by simp [hr], hread⟩, ?_,
              List.forall_mem_cons.mpr ⟨rfl, hmarks⟩, hstop⟩
            rw [List.filterMap_cons, Lexeme.word?, hr, hwords]
            rfl

/-- Lexemes that are all read are tokens if their places fit. -/
theorem exists_place (hread : ∀ l ∈ ls, l.reading ≠ .unrecognized)
    (hfits : p.advanceChars (ls.flatMap (·.text)) = .ok q) :
    ∃ ts, place p ls = .ok (.ok (ts, q)) := by
  induction ls generalizing p with
  | nil =>
    obtain rfl := Except.ok.inj hfits
    exact ⟨[], rfl⟩
  | cons l ls ih =>
    obtain ⟨hl, hread⟩ := List.forall_mem_cons.mp hread
    rw [List.flatMap_cons, Position.advanceChars_append] at hfits
    rw [place, advance_ofList]
    cases hadvance : p.advanceChars l.text with
    | error fault =>
      rw [hadvance] at hfits
      cases hfits
    | ok p' =>
      rw [hadvance] at hfits
      obtain ⟨ts, hts⟩ := ih hread hfits
      cases hr : l.reading with
      | unrecognized => exact absurd hr hl
      | skipped => exact ⟨ts, hts⟩
      | token kind =>
        let text := String.ofList l.text
        exact ⟨.placed kind text p (spanAt p text) :: ts,
          by simp [hts, text, bind, Except.bind, pure, Except.pure]⟩

/-- Without a mark of the end all tokens stand before it. -/
theorem beforeMark_eq_self (h : ∀ t ∈ ts, t.isEndMark = false) :
    TokenList.beforeMark ts = ts := by
  induction ts with
  | nil => rfl
  | cons t ts ih =>
    obtain ⟨ht, hts⟩ := List.forall_mem_cons.mp h
    rw [TokenList.beforeMark, List.takeWhile_cons_of_pos (by rw [ht]; rfl)]
    exact congrArg (t :: ·) (ih hts)

/-- **What a lexer reads** has the words that its lexicon cuts the text into, and
the places in the text fit. -/
theorem read_eq_ok {text : String} {tokens : TokenList K}
    (h : lexicon.lexer.read text = .ok (.ok tokens)) :
    lexicon.Cuts text.toList (tokens.toList.map Token.word) ∧
      ∃ stop, Position.start.advance text = .ok stop := by
  unfold lexer at h
  cases hplace : place .start (lexicon.lexemes text.toList) with
  | error fault => simp [hplace, bind, Except.bind] at h
  | ok answer =>
    cases answer with
    | error e => simp [hplace, bind, Except.bind, pure, Except.pure] at h
    | ok answer =>
      obtain ⟨ts, stop⟩ := answer
      obtain ⟨hread, hwords, hmarks, hstop⟩ := place_eq_ok hplace
      simp only [hplace, bind, Except.bind, pure, Except.pure,
        Except.ok.injEq] at h
      subst h
      rw [flatMap_text_lexemes] at hstop
      rw [TokenList.toList_withStop, beforeMark_eq_self hmarks]
      exact ⟨⟨hread, hwords⟩, stop, hstop⟩

/-- **A text that is cut into words is read** if the places in it fit. -/
theorem exists_read {text : String} {ws : List (K × String)} {stop : Position}
    (hcuts : lexicon.Cuts text.toList ws)
    (hfits : Position.start.advance text = .ok stop) :
    ∃ tokens, lexicon.lexer.read text = .ok (.ok tokens) ∧
      tokens.toList.map Token.word = ws := by
  obtain ⟨hread, hws⟩ := hcuts
  have hplaces : Position.start.advanceChars
      ((lexicon.lexemes text.toList).flatMap (·.text)) = .ok stop := by
    rw [flatMap_text_lexemes]
    exact hfits
  obtain ⟨ts, hts⟩ := exists_place hread hplaces
  have h : lexicon.lexer.read text = .ok (.ok (.withStop ts stop)) := by
    simp [lexer, hts, bind, Except.bind, pure, Except.pure]
  obtain ⟨⟨_, hwords⟩, _⟩ := read_eq_ok h
  exact ⟨_, h, hwords.symm.trans hws⟩

end Lexicon

end Descent
