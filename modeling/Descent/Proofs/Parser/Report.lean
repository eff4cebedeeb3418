import Descent.Proofs.Diagnostic.Rows
import Descent.Proofs.Parser.Answers

/-!
# Where a report shows the error of a parse

An error of a built parser stands in the text that was parsed: its position is
counted over what stands before a piece of the text, and its span is the bytes of
the piece. Its report is given the span and looks for the place itself. Whoever draws
it, as long as indices are indices of characters, comes to the position of the error
and covers the piece if and only if the text is of one-byte characters up to the end
of the piece, and all lines before the piece end at line feeds, with a new line after
each (`Builder.report_tells_iff`).
-/

namespace Descent

variable {K α : Type}

/-- An unexpected token stands in the text, as the token or as its end. -/
theorem UnexpectedToken.PlacedIn.exists_standsAt {e : UnexpectedToken K}
    {tokens : TokenList K} {source : String} (h : e.PlacedIn tokens source) :
    ∃ piece, StandsAt source piece e.position e.span := by
  unfold UnexpectedToken.PlacedIn at h
  split at h
  · next t _ => exact ⟨t.text, h.2.2.2.2⟩
  · exact ⟨"", h.1⟩

variable [DecidableEq K] [TokenKind K] {b : Builder K α} {a : Automaton K}
  {style : Style} {root : String} {p : Parser K α} {text : String}
  {e : ParseError K}

/-- **The error of a parse stands in the text.** -/
theorem Builder.exists_standsAt
    (hb : (b.withLexer (.ready a.lexer)).build style root = .ok (.ok p))
    (hfits : text.utf8ByteSize + 1 < UInt32.size)
    (he : p.parse text = .ok (.error e)) :
    ∃ piece, StandsAt text piece e.position e.span := by
  have hsound := isSound_of_build hb
  rcases a.read_places hfits with ⟨tokens, hread, hplaced⟩ | ⟨e', hread, hplaced⟩
  · have hparse : p.parse text = (p.matcher tokens).evaluate p.grammar.start := by
      simp [Parser.parse, Parser.parseFrom, Parser.tokenize, lexer_of_build hb, hread,
        Except.mapError, bind, Except.bind, pure, Except.pure]
    rw [hparse] at he
    rcases Matcher.output_or_unexpected (m := p.matcher tokens) hsound.recursion
        hsound.start with ⟨x, hx⟩ | ⟨r, hr⟩
    · cases he.symm.trans hx
    · obtain rfl := Except.error.inj (Except.ok.inj (hr.symm.trans he))
      exact (Matcher.unexpected_placedIn (m := p.matcher tokens) hplaced hfits
        r).exists_standsAt
  · have hparse : p.parse text = .ok (.error (.lexical e')) := by
      simp [Parser.parse, Parser.parseFrom, Parser.tokenize, lexer_of_build hb, hread,
        Except.mapError, bind, Except.bind, pure, Except.pure]
    obtain rfl := Except.error.inj (Except.ok.inj (hparse.symm.trans he))
    exact ⟨e'.text, hplaced.2⟩

/-- **When a report shows the place of an error.** Let a parser be built with the
lexer of any automaton, and let it find an error in a text of fewer bytes than the
largest word. The error stands at a piece of the text. Let its report be drawn by any
renderer that reads indices as indices of characters. Then the report, in any
language, shows the line and the column of the error and covers the piece if and only
if it shows a place at all and

* all characters before the piece and in it are of one byte, and
* the lines before the piece end at line feeds: the renderer begins a new line at each
  of them and at no other character.

With the first, it shows a place if the text is not empty. -/
theorem Builder.report_tells_iff {R : Report.Renderer} (hR : R.CountsCharacters)
    (hb : (b.withLexer (.ready a.lexer)).build style root = .ok (.ok p))
    (htext : text.utf8ByteSize < UInt32.size - 1)
    (he : p.parse text = .ok (.error e)) (catalog : Catalog) :
    ∃ before piece after, text = before ++ piece ++ after ∧
      e.span.start.toNat = before.utf8ByteSize ∧
      e.span.stop.toNat = before.utf8ByteSize + piece.utf8ByteSize ∧
      ((e.drawing R text catalog).place = some e.position.place ∧
          (e.drawing R text catalog).covered = some piece ↔
        (e.drawing R text catalog).place.isSome ∧
          (∀ c ∈ (before ++ piece).toList, c.utf8Size = 1) ∧
          R.SameLines before.toList (piece ++ after).toList) ∧
      (text ≠ "" → (∀ c ∈ (before ++ piece).toList, c.utf8Size = 1) →
        (e.drawing R text catalog).place.isSome) := by
  obtain ⟨piece, before, after, hsource, hposition, hstart, hstop⟩ :=
    Builder.exists_standsAt hb (by omega) he
  refine ⟨before, piece, after, hsource, hstart, hstop, ?_, ?_⟩
  · rw [Position.place_of_advance hposition]
    exact hR.tells_iff (q := e.request catalog) hsource hstart hstop
  · exact hR.isSome_place (q := e.request catalog) hsource hstart hstop

/-- The error that a built parser finds in a text, if it is built and finds one. -/
def Builder.errorOf? (b : Builder K α) (style : Style) (root text : String) :
    Option (ParseError K) :=
  match b.build style root with
  | .ok (.ok p) =>
    match p.parse text with
    | .ok (.error e) => some e
    | .ok (.ok _) => none
    | .error _ => none
  | .ok (.error _) => none
  | .error _ => none

theorem Builder.exists_of_errorOf? (h : b.errorOf? style root text = some e) :
    ∃ p, b.build style root = .ok (.ok p) ∧ p.parse text = .ok (.error e) := by
  unfold errorOf? at h
  split at h
  · next p hp =>
    split at h
    · next e' he =>
      obtain rfl := Option.some.inj h
      exact ⟨p, hp, he⟩
    · cases h
    · cases h
  · cases h
  · cases h

namespace Script

/-- The error of `1 +`: a number is missing at the end. -/
def missingNumber : ParseError ScriptKind :=
  .unexpected ⟨none, ⟨1, 4, 3⟩, ⟨3, 3⟩, [.num]⟩

/-- In a text of one line in ASCII the report shows the place, here as it is drawn
with rules: the end of the text, in the fourth column. -/
theorem sumsOfNumbers_report :
    ∃ p, (sumsOfNumbers.withLexer (.ready lexicon.automaton.lexer)).build .ebnf
        "sum" = .ok (.ok p) ∧
      p.parse "1 +" = .ok (.error missingNumber) ∧
      (Report.ruled fun _ => 1).CountsCharacters ∧
      (missingNumber.drawing (Report.ruled fun _ => 1) "1 +" p.catalog).place =
        some (1, 4) ∧
      (missingNumber.drawing (Report.ruled fun _ => 1) "1 +" p.catalog).covered =
        some "" ∧
      Report.Shows
        (missingNumber.drawing (Report.ruled fun _ => 1) "1 +" p.catalog).text
        ((missingNumber.request p.catalog).notice "1 +") 1 4 := by
  have heval : (sumsOfNumbers.withLexer (.ready lexicon.automaton.lexer)).errorOf?
      .ebnf "sum" "1 +" = some missingNumber := by
    decide +kernel
  obtain ⟨p, hp, he⟩ := Builder.exists_of_errorOf? heval
  have hR := Report.ruled_countsCharacters fun _ => 1
  obtain ⟨before, piece, after, hsource, hstart, hstop, hiff, hplace⟩ :=
    Builder.report_tells_iff hR hp (by decide) he p.catalog
  have hall : "1 +".toList.all fun c =>
      decide (c.utf8Size = 1 ∧ Report.isLineEnd c = false) := by
    decide +kernel
  have hchars : ∀ c ∈ "1 +".toList, c.utf8Size = 1 ∧ Report.isLineEnd c = false :=
    fun c hc => of_decide_eq_true (List.all_eq_true.mp hall c hc)
  rw [hsource, String.toList_append, List.forall_mem_append] at hchars
  have hbytes : ∀ c ∈ (before ++ piece).toList, c.utf8Size = 1 := fun c hc =>
    (hchars.1 c hc).1
  have hbefore : ∀ c ∈ before.toList, Report.isLineEnd c = false := fun c hc =>
    (hchars.1 c (by simp [hc])).2
  have hsame : (Report.ruled fun _ => 1).SameLines before.toList
      (piece ++ after).toList := by
    refine Report.ruled_sameLines (fun c hc hend => ?_) fun _ hlast => ?_
    · rw [hbefore c hc] at hend
      cases hend
    · have hfeed := hbefore _ (List.mem_of_getLast? hlast)
      cases hfeed
  obtain ⟨hshown, hcovered⟩ :=
    hiff.mpr ⟨hplace (by decide) hbytes, hbytes, hsame⟩
  obtain rfl : piece = "" := by
    have hsize : missingNumber.span.stop = missingNumber.span.start := rfl
    rw [← String.utf8ByteSize_eq_zero_iff]
    rw [hsize] at hstop
    omega
  exact ⟨p, hp, he, hR, hshown, hcovered, Report.shows_drawing_ruled_iff.mpr hshown⟩

/-- Productions of a Greek name and a number. -/
def greekNumber : Builder ScriptKind Unit :=
  Builder.empty.production "s" "s : GREEK NUM" fun _ => ()

/-- The error of `α + 1`: a plus where a number is wanted. -/
def plusForNumber : ParseError ScriptKind :=
  .unexpected ⟨some ⟨.plus, "+", ⟨1, 3, 3⟩, ⟨3, 4⟩, false⟩, ⟨1, 3, 3⟩, ⟨3, 4⟩, [.num]⟩

/-- **A report that shows another place than the error has**: the plus is the third
character of the text and its fourth byte. A renderer that reads its bytes as
indices of characters shows another place, and covers the blank after it. Drawn with
rules, the place is in the fourth column. -/
theorem greekNumber_report :
    ∃ p, (greekNumber.withLexer (.ready lexicon.automaton.lexer)).build .ebnf "s" =
        .ok (.ok p) ∧
      p.parse "α + 1" = .ok (.error plusForNumber) ∧
      plusForNumber.position = ⟨1, 3, 3⟩ ∧
      (∀ R : Report.Renderer, R.CountsCharacters →
        (plusForNumber.drawing R "α + 1" p.catalog).place.isSome ∧
        (plusForNumber.drawing R "α + 1" p.catalog).place ≠ some (1, 3) ∧
        (plusForNumber.drawing R "α + 1" p.catalog).covered = some " ") ∧
      (plusForNumber.drawing (Report.ruled fun _ => 1) "α + 1" p.catalog).place =
        some (1, 4) := by
  have heval : (greekNumber.withLexer (.ready lexicon.automaton.lexer)).errorOf?
      .ebnf "s" "α + 1" = some plusForNumber := by
    decide +kernel
  obtain ⟨p, hp, he⟩ := Builder.exists_of_errorOf? heval
  have hsource : "α + 1" = "α " ++ "+" ++ " 1" := by decide
  have hstart : (plusForNumber.request p.catalog).start = "α ".utf8ByteSize :=
    (by decide : 3 = "α ".utf8ByteSize)
  have hstop : (plusForNumber.request p.catalog).stop =
      "α ".utf8ByteSize + "+".utf8ByteSize :=
    (by decide : 4 = "α ".utf8ByteSize + "+".utf8ByteSize)
  obtain ⟨hfrom, hto⟩ := Report.notice_eq hsource hstart hstop
  refine ⟨p, hp, he, rfl, fun R hR => ?_, rfl⟩
  obtain ⟨d, hdraw, hplace⟩ := hR.drawn
    (by decide : "α + 1" ≠ "") (hto.trans_le (by decide))
  have hd : Report.drawing R (plusForNumber.request p.catalog) "α + 1" = d := by
    rw [Report.drawing, hdraw]
    rfl
  rw [ParseError.drawing]
  refine ⟨hd ▸ hplace, fun h => ?_, ?_⟩
  · -- the alpha is one character and two bytes
    have hbytes := (hR.place_iff hsource hstart hstop (hd ▸ hplace)).mp h
    exact absurd hbytes.1 (by decide)
  · rw [hd, hR.covered_iff hdraw hplace, hfrom, hto]
    exact ⟨"α +", "1", by decide, by decide, by decide⟩

end Script

end Descent
