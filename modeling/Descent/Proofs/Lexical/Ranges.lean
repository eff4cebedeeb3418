import Descent.Lexical.Scanner
import Descent.Proofs.Lexical.Counting

/-!
# Lexemes as ranges

What cuts a text into lexemes is a scanner: the ranges are those of the lexemes that
are not skipped (`Automaton.scanner`). Its lexer is the one that gives each lexeme its
place in turn (`Automaton.lexer_scanner`), for texts of any length, faults included.
The two count in different pieces, a lexeme that is skipped on its own or together
with all that is skipped around it, and reach the same place
(`Position.advance_append`). A span that is taken from the range of a token and one
that is taken from its place agree even where both stay at the largest word.
-/

namespace Descent

variable {K : Type} {source : String}

/-! ## Pieces of a text -/

/-- The text before a place. -/
def textBefore (p : source.Pos) : String := String.extract source.startPos p

section

variable {p q r : source.Pos} {s t u : String}

/-- A piece is what stands between its ends. -/
theorem extract_eq (hp : p.Splits s (t ++ u)) (hq : q.Splits (s ++ t) u) :
    String.extract p q = t := by
  obtain ⟨hle, hcopy⟩ := String.copy_slice_eq_iff_splits.mpr ⟨s, u, hp, hq⟩
  rw [String.extract_eq_copy_slice p q hle, hcopy]

theorem splits_extract (h : p ≤ q) :
    ∃ s u, p.Splits s (String.extract p q ++ u) ∧
      q.Splits (s ++ String.extract p q) u := by
  rw [String.extract_eq_copy_slice p q h]
  exact String.copy_slice_eq_iff_splits.mp ⟨h, rfl⟩

theorem textBefore_eq (h : p.Splits s t) : textBefore p = s :=
  extract_eq ((String.splits_startPos source).of_eq rfl h.eq_append)
    (h.of_eq String.empty_append.symm rfl)

/-- **Pieces that follow each other** are one piece. -/
theorem textBefore_append (h : p ≤ q) :
    textBefore p ++ String.extract p q = textBefore q := by
  obtain ⟨s, u, hp, hq⟩ := splits_extract h
  rw [textBefore_eq hp, textBefore_eq hq]

theorem textBefore_startPos : textBefore source.startPos = "" :=
  textBefore_eq (String.splits_startPos source)

theorem textBefore_endPos : textBefore source.endPos = source :=
  textBefore_eq (String.splits_endPos source)

/-- The text before a place has as many bytes as its offset. -/
theorem utf8ByteSize_textBefore (p : source.Pos) :
    (textBefore p).utf8ByteSize = p.offset.byteIdx := by
  rw [textBefore_eq p.splits, p.splits.offset_eq_rawEndPos]
  rfl

theorem utf8ByteSize_textBefore_le (p : source.Pos) :
    (textBefore p).utf8ByteSize ≤ source.utf8ByteSize := by
  rw [textBefore_eq p.splits]
  conv_rhs => rw [p.splits.eq_append, String.utf8ByteSize_append]
  omega

end

variable {p q : source.Pos} {before : String} {l : Lexeme K} {ls : List (Lexeme K)}

/-! ## Ranges in order -/

namespace TextRange

variable {r : TextRange K source} {rs : List (TextRange K source)}

/-- **Ranges in order** from a place on: none of them is empty, and none begins
before the place or before the ranges that come first have ended. -/
structure AreOrdered (p : source.Pos) (rs : List (TextRange K source)) : Prop where
  /-- All begin at the place or later. -/
  le_start : ∀ r ∈ rs, p ≤ r.start
  /-- None is empty. -/
  start_lt_stop : ∀ r ∈ rs, r.start < r.stop
  /-- Each has ended before the next begins. -/
  pairwise : rs.Pairwise fun r s => r.stop ≤ s.start

namespace AreOrdered

theorem nil : AreOrdered (K := K) p [] where
  le_start _ h := absurd h List.not_mem_nil
  start_lt_stop _ h := absurd h List.not_mem_nil
  pairwise := .nil

/-- What is in order from a later place on is in order from an earlier one on. -/
theorem mono (h : AreOrdered q rs) (hle : p ≤ q) : AreOrdered p rs where
  le_start r hr := String.Pos.le_trans hle (h.le_start r hr)
  start_lt_stop := h.start_lt_stop
  pairwise := h.pairwise

/-- The ranges after one are in order from its end on. -/
theorem of_cons (h : AreOrdered p (r :: rs)) : AreOrdered r.stop rs where
  le_start := (List.pairwise_cons.mp h.pairwise).1
  start_lt_stop s hs := h.start_lt_stop s (List.mem_cons_of_mem r hs)
  pairwise := (List.pairwise_cons.mp h.pairwise).2

theorem cons (hle : p ≤ r.start) (hlt : r.start < r.stop) (h : AreOrdered r.stop rs) :
    AreOrdered p (r :: rs) where
  le_start := List.forall_mem_cons.mpr
    ⟨hle, (h.mono (String.Pos.le_trans hle (String.Pos.le_of_lt hlt))).le_start⟩
  start_lt_stop := List.forall_mem_cons.mpr ⟨hlt, h.start_lt_stop⟩
  pairwise := List.pairwise_cons.mpr ⟨h.le_start, h.pairwise⟩

end AreOrdered

end TextRange

theorem Scanner.areOrdered (scanner : Scanner K) (source : String) :
    TextRange.AreOrdered source.startPos (scanner.ranges source) where
  le_start r _ := String.Pos.startPos_le r.start
  start_lt_stop := scanner.start_lt_stop source
  pairwise := scanner.pairwise source

/-! ## The ranges of lexemes -/

namespace Lexicon

/-- The place after a lexeme is where the next begins. -/
theorem splits_nextn
    (h : p.Splits before (String.ofList ((l :: ls).flatMap (·.text)))) :
    (p.nextn l.text.length).Splits (before ++ String.ofList l.text)
      (String.ofList (ls.flatMap (·.text))) := by
  have hnext := h.nextn l.text.length
  rwa [List.flatMap_cons, String.toList_ofList, List.take_left, List.drop_left]
    at hnext

theorem extract_nextn
    (h : p.Splits before (String.ofList ((l :: ls).flatMap (·.text)))) :
    String.extract p (p.nextn l.text.length) = String.ofList l.text :=
  extract_eq (by rwa [← String.ofList_append, ← List.flatMap_cons]) (splits_nextn h)

theorem lt_nextn (hl : l.text ≠ [])
    (h : p.Splits before (String.ofList ((l :: ls).flatMap (·.text)))) :
    p < p.nextn l.text.length :=
  (h.lt_iff_exists_eq_append (splits_nextn h)).mpr
    ⟨String.ofList l.text, by simpa using hl, rfl,
      by rw [← String.ofList_append, ← List.flatMap_cons]⟩

/-- **The ranges of lexemes are in order** from where the lexemes begin. -/
theorem areOrdered_rangesFrom (hne : ∀ l ∈ ls, l.text ≠ [])
    (h : p.Splits before (String.ofList (ls.flatMap (·.text)))) :
    TextRange.AreOrdered p (rangesFrom p ls) := by
  induction ls generalizing p before with
  | nil => exact .nil
  | cons l ls ih =>
    obtain ⟨hl, hne⟩ := List.forall_mem_cons.mp hne
    have hlt := lt_nextn hl h
    have hrest := ih hne (splits_nextn h)
    cases hr : l.reading with
    | token kind =>
      simp only [rangesFrom, hr]
      exact .cons (String.Pos.le_refl p) hlt hrest
    | unrecognized =>
      simp only [rangesFrom, hr]
      exact .cons (String.Pos.le_refl p) hlt hrest
    | skipped =>
      simp only [rangesFrom, hr]
      exact hrest.mono (String.Pos.le_of_lt hlt)

end Lexicon

/-- The lexemes of a text are all of it. -/
theorem Automaton.splits_startPos (a : Automaton K) (source : String) :
    source.startPos.Splits ""
      (String.ofList ((a.lexemes source.toList).flatMap (·.text))) := by
  rw [a.flatMap_text, String.ofList_toList]
  exact String.splits_startPos source

/-! ## Two ways to count the same text -/

/-- Nothing is counted between a place and itself. -/
theorem Position.advance_extract_self (a : Position) (p : source.Pos) :
    a.advance (String.extract p p) = .ok a := by
  rw [String.extract_eq_copy_slice p p (String.Pos.le_refl p), String.copy_slice_self]
  rfl

theorem byteIdx_add_utf8ByteSize (h : p ≤ q) :
    p.offset.byteIdx + (String.extract p q).utf8ByteSize = q.offset.byteIdx := by
  rw [← utf8ByteSize_textBefore, ← utf8ByteSize_textBefore, ← textBefore_append h,
    String.utf8ByteSize_append]

/-- An offset counts the bytes before a place of a text, as far as there is room. -/
def Position.IsAtOffset (at' : Position) (p : source.Pos) : Prop :=
  at'.offset = saturate p.offset.byteIdx

namespace Position.IsAtOffset

variable {a b : Position}

theorem advance (h : a.IsAtOffset p) (hle : p ≤ q)
    (hadvance : a.advance (String.extract p q) = .ok b) : b.IsAtOffset q := by
  rw [IsAtOffset, offset_of_advance hadvance, h, saturate_toNat_saturate_add,
    byteIdx_add_utf8ByteSize hle]

/-- **The span from a place is the span of the range** that begins there. -/
theorem spanAt_eq (h : a.IsAtOffset p) (hle : p ≤ q) (kind? : Option K) :
    Lexicon.spanAt a (String.extract p q) = TextRange.span ⟨kind?, p, q⟩ := by
  rw [Lexicon.spanAt, Span.ofRange, h, saturate_toNat, saturate_toNat_saturate_add,
    byteIdx_add_utf8ByteSize hle]
  rfl

end Position.IsAtOffset

namespace Scan

variable {s : Scan K source}

theorem complete_nil : s.complete [] = s.finish.map .ok := by
  cases h : s.finish <;>
    simp [complete, run, h, bind, Except.bind, pure, Except.pure, Except.map]

section

variable {r : TextRange K source} {rs : List (TextRange K source)}

/-- A range where nothing is recognized is the end of the pass. -/
theorem complete_unrecognized (hk : r.kind? = none) :
    s.complete (r :: rs) =
      (s.position.advance (String.extract s.consumed r.start)).map fun p =>
        .error ⟨r.text, p, r.span⟩ := by
  simp only [complete, run, step, hk, bind, pure, Except.pure]
  cases s.position.advance (String.extract s.consumed r.start) <;> rfl

/-- A token is put down, and the pass goes on after its range. -/
theorem complete_token {kind : K} (hk : r.kind? = some kind) :
    s.complete (r :: rs) =
      (s.position.advance (String.extract s.consumed r.start)).bind fun p =>
        (p.advance r.text).bind fun q =>
          complete ⟨s.tokens ++ [.placed kind r.text p r.span], q, r.stop⟩ rs := by
  simp only [complete, run, step, hk, bind, pure, Except.pure]
  cases s.position.advance (String.extract s.consumed r.start) with
  | error fault => rfl
  | ok p =>
    simp only [Except.bind]
    cases p.advance r.text <;> rfl

end

/-- Counting what is skipped on its own is counting it with what was skipped
before. -/
theorem advance_extract_bind {c : source.Pos} (a : Position) (hcp : c ≤ p)
    (hpq : p ≤ q) :
    (a.advance (String.extract c p)).bind (·.advance (String.extract p q)) =
      a.advance (String.extract c q) := by
  rw [← Position.advance_append]
  congr 1
  apply String.append_right_inj (textBefore c) |>.mp
  rw [← String.append_assoc, textBefore_append hcp, textBefore_append hpq,
    textBefore_append (String.Pos.le_trans hcp hpq)]

/-- **A pass over the ranges of lexemes places the lexemes**, from where the skipped
ones are counted. -/
theorem complete_rangesFrom {c : source.Pos} {a : Position} {ts : List (Token K)}
    (hne : ∀ l ∈ ls, l.text ≠ [])
    (hsplits : p.Splits before (String.ofList (ls.flatMap (·.text))))
    (hle : c ≤ p) (hoffset : a.IsAtOffset c) :
    complete ⟨ts, a, c⟩ (Lexicon.rangesFrom p ls) =
      (a.advance (String.extract c p)).bind fun b =>
        (Lexicon.place b ls).map
          (·.map fun placed => .withStop (ts ++ placed.1) placed.2) := by
  induction ls generalizing p before c a ts with
  | nil =>
    obtain rfl : p = source.endPos := hsplits.eq_endPos_iff.mpr rfl
    rw [Lexicon.rangesFrom, complete_nil, finish]
    cases h : a.advance (String.extract c source.endPos) with
    | error fault => simp [bind, Except.bind, Except.map]
    | ok b =>
      simp [Lexicon.place, bind, Except.bind, pure, Except.pure, Except.map]
  | cons l ls ih =>
    obtain ⟨hl, hne⟩ := List.forall_mem_cons.mp hne
    have hlt := String.Pos.le_of_lt (Lexicon.lt_nextn hl hsplits)
    have htext := Lexicon.extract_nextn hsplits
    have hnext := Lexicon.splits_nextn hsplits
    cases hr : l.reading with
    | skipped =>
      simp only [Lexicon.rangesFrom, hr]
      rw [ih hne hnext (String.Pos.le_trans hle hlt) hoffset,
        ← advance_extract_bind a hle hlt, htext]
      cases a.advance (String.extract c p) with
      | error fault => rfl
      | ok b =>
        simp only [Except.bind, Lexicon.place, hr]
        cases b.advance (String.ofList l.text) <;> rfl
    | unrecognized =>
      simp only [Lexicon.rangesFrom, hr]
      rw [complete_unrecognized rfl]
      cases h : a.advance (String.extract c p) with
      | error fault => rfl
      | ok b =>
        have hspan := (hoffset.advance hle h).spanAt_eq hlt (none : Option K)
        rw [htext] at hspan
        simp only [Lexicon.place, hr, hspan, TextRange.text, htext, Except.bind,
          Except.map]
    | token kind =>
      simp only [Lexicon.rangesFrom, hr]
      rw [complete_token rfl]
      cases h : a.advance (String.extract c p) with
      | error fault => rfl
      | ok b =>
        have hb := hoffset.advance hle h
        have hspan := hb.spanAt_eq hlt (some kind)
        rw [htext] at hspan
        simp only [Lexicon.place, hr, hspan, TextRange.text, htext, bind, Except.bind]
        cases h' : b.advance (String.ofList l.text) with
        | error fault => rfl
        | ok b' =>
          -- nothing is skipped between the token and what comes next
          have hb' := hb.advance hlt (by rwa [htext])
          simp only [pure, Except.pure]
          rw [ih hne hnext (String.Pos.le_refl _) hb', b'.advance_extract_self]
          simp only [List.append_assoc, List.singleton_append, Except.bind]
          cases hplace : Lexicon.place b' ls with
          | error fault => rfl
          | ok answer => cases answer <;> rfl

end Scan

namespace Automaton

theorem areOrdered_lexemes (a : Automaton K) (source : String) :
    TextRange.AreOrdered source.startPos
      (Lexicon.rangesFrom source.startPos (a.lexemes source.toList)) :=
  Lexicon.areOrdered_rangesFrom (a.text_ne_nil source.toList)
    (a.splits_startPos source)

/-- **What cuts a text into lexemes is a scanner.** -/
def scanner (a : Automaton K) : Scanner K where
  ranges source := Lexicon.rangesFrom source.startPos (a.lexemes source.toList)
  start_lt_stop source := (a.areOrdered_lexemes source).start_lt_stop
  pairwise source := (a.areOrdered_lexemes source).pairwise

/-- **The two ways to place lexemes agree** on texts of any length: counting what is
skipped together with what comes next, or on its own. -/
theorem lexer_scanner (a : Automaton K) : a.scanner.lexer = a.lexer := by
  refine congrArg Lexer.mk (funext fun source => ?_)
  have hoffset : Position.start.IsAtOffset source.startPos := rfl
  have hcomplete : Scan.complete ⟨[], .start, source.startPos⟩ _ = _ :=
    Scan.complete_rangesFrom (a.text_ne_nil source.toList)
      (a.splits_startPos source) (String.Pos.le_refl _) hoffset
  rw [Position.start.advance_extract_self] at hcomplete
  refine hcomplete.trans ?_
  simp only [Except.bind, bind, pure, Except.pure]
  cases Lexicon.place .start (a.lexemes source.toList) with
  | error fault => rfl
  | ok answer => cases answer <;> rfl

end Automaton

end Descent
