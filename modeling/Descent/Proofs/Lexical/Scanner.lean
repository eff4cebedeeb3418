import Descent.Script
import Descent.Proofs.Lexical.Ranges

/-!
# The places a scanner's tokens get

A pass over the ranges of a text counts the text once, from its first character to
its last, in pieces: what was skipped before a range, the range, and at the end what
is left. So what it has counted after some ranges is the text up to the last of them
(`Scan.Follows`), whatever was skipped, and each token gets the place that the start
has when it is advanced over all that comes before the token (`TextRange.IsAt`).

A text that is not too long is read without a fault. Either every range is one of a
token, and the tokens are those of the ranges, each where its range is, in order and
apart from each other (`Scanner.Reads`), or there is a first range where nothing is
recognized, and the answer is the error that stands there (`Scanner.Rejects`).
-/

namespace Descent

variable {K : Type} {source : String}

/-! ## Ranges at their places -/

/-- **Any later place is reached** over what stands between, in a text that is not
too long. -/
theorem Position.exists_advance_extract {a : Position} {p q : source.Pos}
    (h : start.advance (textBefore p) = .ok a) (hle : p ≤ q)
    (hfits : source.utf8ByteSize + 1 < UInt32.size) :
    ∃ b, a.advance (String.extract p q) = .ok b ∧
      start.advance (textBefore q) = .ok b := by
  have hsize := utf8ByteSize_textBefore_le q
  have hfits' : 0 + (textBefore q).utf8ByteSize + 1 < UInt32.size := by omega
  obtain ⟨b, hb, -⟩ := within_start.advance hfits'
  refine ⟨b, ?_, hb⟩
  rwa [← textBefore_append hle, advance_append, h] at hb

namespace TextRange

/-- **A text is that of a range**, with its place: the span is the range, the text is
what the source has there, and the place is the start advanced over all that the
source has before, which it counts. -/
structure IsAt (r : TextRange K source) (text : String) (p : Position) (s : Span) :
    Prop where
  /-- The span begins where the range does. -/
  start : s.start.toNat = r.start.offset.byteIdx
  /-- The span ends where the range does. -/
  stop : s.stop.toNat = r.stop.offset.byteIdx
  /-- The text is what the source has there. -/
  text : text = String.extract r.start r.stop
  /-- The place is the start advanced over what the source has before. -/
  place : Position.start.advance (textBefore r.start) = .ok p
  /-- The place counts what the source has before. -/
  counts : p.Counts (textBefore r.start)

/-- A token of a range. -/
structure IsToken (r : TextRange K source) (t : Token K) : Prop where
  /-- The token has the kind that is recognized there. -/
  kind : r.kind? = some t.kind
  /-- The token is where the range is. -/
  isAt : r.IsAt t.text t.position t.span
  /-- The token is no mark of the end. -/
  isEndMark : t.isEndMark = false

variable {r : TextRange K source} {p : Position}

theorem isAt_of_place (hfits : source.utf8ByteSize + 1 < UInt32.size)
    (h : Position.start.advance (textBefore r.start) = .ok p) :
    r.IsAt r.text p r.span := by
  have hoffset (q : source.Pos) :
      (saturate q.offset.byteIdx).toNat = q.offset.byteIdx := by
    have hle := utf8ByteSize_textBefore_le q
    rw [utf8ByteSize_textBefore] at hle
    exact Position.toNat_saturate (by omega)
  have hle := utf8ByteSize_textBefore_le r.start
  exact ⟨hoffset _, hoffset _, rfl, h,
    Position.counts_of_advance h (by omega)⟩

/-- What comes after a range comes after its token. -/
theorem IsToken.stop_le_start {r' : TextRange K source} {t t' : Token K}
    (h : r.IsToken t) (h' : r'.IsToken t') (hle : r.stop ≤ r'.start) :
    t.span.stop ≤ t'.span.start := by
  rw [UInt32.le_iff_toNat_le, h.isAt.stop, h'.isAt.start]
  exact hle

/-- The token of a range that is not empty takes some bytes. -/
theorem IsToken.start_lt_stop {t : Token K} (h : r.IsToken t)
    (hlt : r.start < r.stop) : t.span.start < t.span.stop := by
  rw [UInt32.lt_iff_toNat_lt, h.isAt.start, h.isAt.stop]
  exact hlt

variable {rs : List (TextRange K source)} {ts : List (Token K)}

/-- Each token is that of a range. -/
theorem exists_isToken (h : List.Forall₂ IsToken rs ts) {t : Token K} (ht : t ∈ ts) :
    ∃ r ∈ rs, r.IsToken t := by
  obtain ⟨hlength, hget⟩ := List.forall₂_iff_get.mp h
  obtain ⟨i, hi, rfl⟩ := List.getElem_of_mem ht
  have hi' : i < rs.length := hlength ▸ hi
  exact ⟨rs[i], List.getElem_mem hi', hget i hi' hi⟩

/-- The tokens are in the order of the ranges, and as far apart. -/
theorem pairwise_span (h : List.Forall₂ IsToken rs ts)
    (hpair : rs.Pairwise fun r s => r.stop ≤ s.start) :
    ts.Pairwise fun t u => t.span.stop ≤ u.span.start := by
  obtain ⟨hlength, hget⟩ := List.forall₂_iff_get.mp h
  rw [List.pairwise_iff_getElem] at hpair ⊢
  intro i j hi hj hij
  have hi' : i < rs.length := hlength ▸ hi
  have hj' : j < rs.length := hlength ▸ hj
  exact (hget i hi' hi).stop_le_start (hget j hj' hj) (hpair i j hi' hj' hij)

end TextRange

/-! ## One pass over the ranges -/

namespace Scan

variable {s : Scan K source} {r : TextRange K source}
  {done rs : List (TextRange K source)}

/-- **The state after some ranges**: the place is the start advanced over all that is
counted, and the tokens are those of the ranges. -/
structure Follows (s : Scan K source) (done : List (TextRange K source)) : Prop where
  /-- The place is reached over what is counted. -/
  place : Position.start.advance (textBefore s.consumed) = .ok s.position
  /-- The tokens are those of the ranges. -/
  tokens : List.Forall₂ TextRange.IsToken done s.tokens

theorem follows_initial : (initial : Scan K source).Follows [] where
  place := by
    show Position.start.advance (textBefore source.startPos) = _
    rw [textBefore_startPos]
    rfl
  tokens := .nil

/-- **One range further** where a token is recognized, it is put down. -/
theorem Follows.step (h : s.Follows done) {kind : K} (hk : r.kind? = some kind)
    (hle : s.consumed ≤ r.start) (hlt : r.start < r.stop)
    (hfits : source.utf8ByteSize + 1 < UInt32.size) :
    ∃ s', s.step r = .ok (.ok s') ∧ s'.consumed = r.stop ∧
      s'.Follows (done ++ [r]) := by
  obtain ⟨p, hp, hplace⟩ := Position.exists_advance_extract h.place hle hfits
  obtain ⟨q, hq, hplace'⟩ : ∃ q, p.advance r.text = .ok q ∧
      Position.start.advance (textBefore r.stop) = .ok q :=
    Position.exists_advance_extract hplace (String.Pos.le_of_lt hlt) hfits
  have hisAt := TextRange.isAt_of_place hfits hplace
  refine ⟨⟨s.tokens ++ [.placed kind r.text p r.span], q, r.stop⟩, ?_, rfl, hplace', ?_⟩
  · simp [Scan.step, hp, hq, hk, bind, Except.bind, pure, Except.pure]
  · exact List.rel_append h.tokens (.cons ⟨hk, hisAt, rfl⟩ .nil)

/-- Where nothing is recognized, that is the answer. -/
theorem Follows.step_unrecognized (h : s.Follows done) (hk : r.kind? = none)
    (hle : s.consumed ≤ r.start) (hfits : source.utf8ByteSize + 1 < UInt32.size) :
    ∃ e : LexicalError, s.step r = .ok (.error e) ∧
      r.IsAt e.text e.position e.span := by
  obtain ⟨p, hp, hplace⟩ := Position.exists_advance_extract h.place hle hfits
  refine ⟨⟨r.text, p, r.span⟩, ?_, TextRange.isAt_of_place hfits hplace⟩
  simp [Scan.step, hp, hk, bind, Except.bind, pure, Except.pure]

/-- **Over all ranges** the tokens are those of the ranges, unless there is a first
where nothing is recognized. -/
theorem Follows.run (h : s.Follows done) (hrs : TextRange.AreOrdered s.consumed rs)
    (hfits : source.utf8ByteSize + 1 < UInt32.size) :
    (∃ s', s.run rs = .ok (.ok s') ∧ s'.Follows (done ++ rs)) ∨
    ∃ known r rest e, rs = known ++ r :: rest ∧ (∀ k ∈ known, k.kind?.isSome) ∧
      r.kind? = none ∧ s.run rs = .ok (.error e) ∧
      r.IsAt e.text e.position e.span := by
  induction rs generalizing s done with
  | nil => exact .inl ⟨s, rfl, by simpa using h⟩
  | cons r rs ih =>
    have hle := hrs.le_start r List.mem_cons_self
    have hlt := hrs.start_lt_stop r List.mem_cons_self
    cases hk : r.kind? with
    | none =>
      obtain ⟨e, he, hisAt⟩ := h.step_unrecognized hk hle hfits
      exact .inr ⟨[], r, rs, e, rfl, fun _ h => absurd h List.not_mem_nil, hk,
        by simp [Scan.run, he, bind, Except.bind, pure, Except.pure], hisAt⟩
    | some kind =>
      obtain ⟨s', hs', hconsumed, hfollows⟩ := h.step hk hle hlt hfits
      have hrun : s.run (r :: rs) = s'.run rs := by
        simp only [Scan.run, hs', bind, Except.bind]
      rw [hrun]
      rcases ih hfollows (hconsumed.symm ▸ hrs.of_cons) with
        ⟨s'', hs'', hdone⟩ | ⟨known, r', rest, e, rfl, hknown, hk', he, hisAt⟩
      · exact .inl ⟨s'', hs'', by simpa using hdone⟩
      · exact .inr ⟨r :: known, r', rest, e, rfl,
          List.forall_mem_cons.mpr ⟨by simp [hk], hknown⟩, hk', he, hisAt⟩

end Scan

/-! ## Reading a text -/

namespace Scanner

/-- **Tokens that are those of the ranges of a text**: each is where its range is,
they take some bytes each and none in common, and they end where the text does. -/
structure Reads (scanner : Scanner K) (source : String) (tokens : TokenList K) :
    Prop where
  /-- The tokens are those of the ranges, one by one. -/
  areTokens : List.Forall₂ TextRange.IsToken (scanner.ranges source) tokens.toList
  /-- All tokens can be matched. -/
  items : tokens.items.toList = tokens.toList
  /-- Each token takes some bytes. -/
  start_lt_stop : ∀ t ∈ tokens.toList, t.span.start < t.span.stop
  /-- No token begins before those that come first have ended. -/
  pairwise : tokens.toList.Pairwise fun t u => t.span.stop ≤ u.span.start
  /-- The end is the start advanced over the whole text. -/
  stop : Position.start.advance source = .ok tokens.stop
  /-- The end counts the whole text. -/
  counts : tokens.stop.Counts source

/-- **An error that stands at the first range of a text where nothing is
recognized.** -/
def Rejects (scanner : Scanner K) (source : String) (e : LexicalError) : Prop :=
  ∃ known r rest, scanner.ranges source = known ++ r :: rest ∧
    (∀ k ∈ known, k.kind?.isSome) ∧ r.kind? = none ∧
    r.IsAt e.text e.position e.span

/-- What a pass over all ranges ends with is read. -/
theorem reads_of_follows {scanner : Scanner K} {s : Scan K source}
    (h : s.Follows (scanner.ranges source))
    (hfits : source.utf8ByteSize + 1 < UInt32.size) :
    ∃ tokens, s.finish = .ok tokens ∧ scanner.Reads source tokens := by
  obtain ⟨q, hq, hstop⟩ :=
    Position.exists_advance_extract h.place (String.Pos.le_endPos _) hfits
  rw [textBefore_endPos] at hstop
  have hmarks : TokenList.beforeMark s.tokens = s.tokens := by
    refine Lexicon.beforeMark_eq_self fun t ht => ?_
    obtain ⟨r, -, hr⟩ := TextRange.exists_isToken h.tokens ht
    exact hr.isEndMark
  refine ⟨.withStop s.tokens q, ?_, ?_⟩
  · simp [Scan.finish, hq, bind, Except.bind, pure, Except.pure]
  · have htokens : (TokenList.withStop s.tokens q).toList = s.tokens := by
      rw [TokenList.toList_withStop, hmarks]
    refine ⟨htokens.symm ▸ h.tokens, htokens.symm, ?_, ?_, hstop,
      Position.counts_of_advance hstop hfits⟩
    · intro t ht
      rw [htokens] at ht
      obtain ⟨r, hmem, hr⟩ := TextRange.exists_isToken h.tokens ht
      exact hr.start_lt_stop (scanner.start_lt_stop source r hmem)
    · rw [htokens]
      exact TextRange.pairwise_span h.tokens (scanner.pairwise source)

/-- **Places are exact**, whatever the scanner: a text of fewer bytes than the largest
word is read without a fault. The tokens are those of the ranges, each where its range
is, or the answer is the error at the first range where nothing is recognized. This
rests on the law that to advance over two texts is to advance over the one and then
the other, wherever one begins and whether or not the counters have room. -/
theorem places_exact (scanner : Scanner K) :
    (∀ source : String, source.utf8ByteSize < UInt32.size - 1 →
      (∃ tokens, scanner.lexer.read source = .ok (.ok tokens) ∧
        scanner.Reads source tokens) ∨
      ∃ e, scanner.lexer.read source = .ok (.error e) ∧
        scanner.Rejects source e) ∧
    ∀ (p : Position) (s t : String),
      p.advance s = p.advanceAtOnce s ∧
        p.advance (s ++ t) = (p.advance s).bind (·.advance t) := by
  refine ⟨fun source hsize => ?_, fun p s t =>
    ⟨p.advance_eq_advanceAtOnce s, p.advance_append s t⟩⟩
  have hfits : source.utf8ByteSize + 1 < UInt32.size := by omega
  have hrun := Scan.follows_initial.run (scanner.areOrdered source) hfits
  rw [List.nil_append] at hrun
  rcases hrun with
    ⟨s, hs, hfollows⟩ | ⟨known, r, rest, e, hsplit, hknown, hk, he, hisAt⟩
  · obtain ⟨tokens, htokens, hreads⟩ := reads_of_follows hfollows hfits
    refine .inl ⟨tokens, ?_, hreads⟩
    simp [lexer, Scan.complete, hs, htokens, bind, Except.bind, pure, Except.pure]
  · refine .inr ⟨e, ?_, known, r, rest, hsplit, hknown, hk, hisAt⟩
    simp [lexer, Scan.complete, he, bind, Except.bind, pure, Except.pure]

end Scanner

/-- Two tokens of Script after a comment, a line end and letters of two bytes. -/
def Script.twoLines : String := "αβ # γ\n 12"

/-- **In Script they are read**, each at its place. -/
theorem Script.twoLines_places :
    Script.twoLines.utf8ByteSize < UInt32.size - 1 ∧
      ∃ tokens, Script.lexicon.lexer.read Script.twoLines = .ok (.ok tokens) ∧
        Script.lexicon.automaton.scanner.Reads Script.twoLines tokens := by
  have hsize : Script.twoLines.utf8ByteSize < UInt32.size - 1 := by decide
  refine ⟨hsize, ?_⟩
  rw [← Lexicon.lexer_automaton, ← Automaton.lexer_scanner]
  refine ((Scanner.places_exact _).1 _ hsize).resolve_right ?_
  rintro ⟨e, -, known, r, rest, hsplit, -, hk, -⟩
  -- every lexeme is read
  have hall : (Script.lexicon.automaton.scanner.ranges Script.twoLines).all
      (·.kind?.isSome) = true := by decide +kernel
  rw [hsplit, List.all_append, List.all_cons, hk] at hall
  simp at hall

end Descent
