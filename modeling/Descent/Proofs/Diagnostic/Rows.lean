import Descent.Proofs.Diagnostic.Ruled
import Descent.Proofs.Text.Separated

/-!
# What can be read in a drawing with rules

What a drawing says of the source is what can be read in its text. The place that it
says is the only one that stands in its head (`Report.shows_ruledDrawing_iff`), and
the text that its label covers is what its rows mark (`Report.marks_ruledDrawing`):
within a line the underlined characters, over several lines what lies between the
line that is opened and the one that is closed.
-/

namespace Descent

namespace Report

variable {width : Char → Nat} {n : Notice} {source piece : String}

/-! ## The head of a drawing -/

/-- **A text shows a line and a column** in its head. -/
def Shows (text : String) (n : Notice) (line column : Nat) : Prop :=
  ∃ (m : Margin) (rest : String),
    text = head n.code n.message ++ m.opening line column ++ rest

/-- What stands in the lines before the source lines. -/
theorem toList_opening (m : Margin) (line column : Nat) (rest : String) :
    (m.opening line column ++ rest).toList =
      List.replicate (m.w + 2) ' ' ++ '╭' :: ("─[<unknown>:".toList ++
        ((toString line).toList ++ ':' :: ((toString column).toList ++ ']' ::
          ('\n' :: (blanks (m.w + 2) ++ "│\n" ++ rest).toList)))) := by
  have htext (s : String) : toString s = s := rfl
  simp [Margin.opening, blanks, htext]

/-- **A text shows one line and one column.** -/
theorem Shows.unique {text : String} {line column line' column' : Nat}
    (h : Shows text n line column) (h' : Shows text n line' column') :
    line = line' ∧ column = column' := by
  obtain ⟨m, rest, rfl⟩ := h
  obtain ⟨m', rest', heq⟩ := h'
  rw [String.append_assoc, String.append_assoc, String.append_right_inj,
    ← String.toList_inj, toList_opening, toList_opening] at heq
  have hblank {n : Nat} : '╭' ∉ List.replicate n ' ' := fun h =>
    absurd (List.eq_of_mem_replicate h) (by decide)
  obtain ⟨_, heq⟩ := append_cons_inj hblank hblank heq
  obtain ⟨hline, heq⟩ := toString_append_inj rfl (List.append_cancel_left heq)
  exact ⟨hline, (toString_append_inj rfl heq).1⟩

/-- **The place of a drawing is the one that stands in its head**, and the only
one. -/
theorem shows_ruledDrawing_iff {line column : Nat} :
    Shows (ruledDrawing width n source).text n line column ↔
      (ruledDrawing width n source).place = some (line, column) := by
  by_cases hin : n.IsIn source
  · obtain ⟨m, hm⟩ := ruledDrawing_of_isIn width hin
    have hshows : Shows (ruledDrawing width n source).text n
        (placeOf source.toList n.start).1 (placeOf source.toList n.start).2 :=
      ⟨m, _, congrArg Drawing.text hm⟩
    rw [hm] at hshows ⊢
    rw [Option.some.injEq]
    constructor
    · intro h
      obtain ⟨hline, hcolumn⟩ := hshows.unique h
      exact Prod.ext hline hcolumn
    · intro h
      have hline : (placeOf source.toList n.start).1 = line := congrArg Prod.fst h
      have hcolumn : (placeOf source.toList n.start).2 = column := congrArg Prod.snd h
      rw [hline, hcolumn] at hshows ⊢
      exact hshows
  · rw [ruledDrawing_of_not_isIn hin]
    refine iff_of_false ?_ (Option.some_ne_none _).symm
    rintro ⟨m, rest, hrest⟩
    have hlist := congrArg String.toList hrest
    rw [String.append_assoc, String.toList_append, List.self_eq_append_right,
      toList_opening] at hlist
    simp at hlist

theorem shows_drawing_ruled_iff {q : Request} {line column : Nat} :
    Shows (drawing (ruled width) q source).text (q.notice source) line column ↔
      (drawing (ruled width) q source).place = some (line, column) :=
  shows_ruledDrawing_iff

/-! ## The rows of a drawing -/

/-- Where a row of signs underlines. -/
def isUnderline (c : Char) : Bool := c == '┬' || c == '─'

/-- **The characters of a line that a row underlines**: those over the underlining
signs. -/
def underlined (l : Line) (a b : Nat) (cs : List Char) : List Char :=
  (cs.zipIdx.filter fun p => isUnderline (signAt l a b p.2).1).map Prod.fst

/-- **A text underlines a piece of a source**: below one of the lines stands a row of
signs that underlines the characters of the piece. -/
def Underlines (width : Char → Nat) (text : String) (n : Notice)
    (source piece : List Char) : Prop :=
  ∃ (m : Margin) (above : List (List Char)) (line : List Char)
    (below : List (List Char)) (start rest : String),
      splitLines source = above ++ line :: below ∧
      text = start ++ (m.number above.length ++
          (Line.of above.flatten.length line).body width ++ "\n" ++
        (m.bar ++ signRow width (.of above.flatten.length line) n.start n.stop ++
          "\n")) ++ rest ∧
      underlined (.of above.flatten.length line) n.start n.stop line = piece

/-- **A text brackets a piece of a source**: it opens the line in which the piece
begins, and closes the line in which it ends. -/
def Brackets (width : Char → Nat) (text : String) (source piece : List Char) :
    Prop :=
  ∃ (m : Margin) (above : List (List Char)) (before opened : List Char)
    (between : List (List Char)) (closed after : List Char)
    (below : List (List Char)) (start gap rest : String),
      splitLines source =
        above ++ (before ++ opened) :: between ++ (closed ++ after) :: below ∧
      text = start ++ (m.number above.length ++ "╭─▶ " ++
          (Line.of above.flatten.length (before ++ opened)).body width ++ "\n") ++
        gap ++ (m.number (above ++ (before ++ opened) :: between).length ++ "├─▶ " ++
          (Line.of (above ++ (before ++ opened) :: between).flatten.length
            (closed ++ after)).body width ++ "\n") ++ rest ∧
      opened ≠ [] ∧ closed ≠ [] ∧ piece = opened ++ between.flatten ++ closed

@[simp] theorem isUnderline_signAt {l : Line} {a b i : Nat} :
    isUnderline (signAt l a b i).1 = decide (a ≤ l.offset + i ∧ l.offset + i < b) := by
  unfold signAt
  dsimp only
  split
  · next hin =>
    rw [decide_eq_true hin]
    split <;> rfl
  · next hin =>
    rw [decide_eq_false hin]
    split <;> rfl

/-- The characters at the indices of a range. -/
theorem map_fst_filter_zipIdx (cs : List Char) (k a b : Nat) :
    ((cs.zipIdx k).filter fun p => decide (a ≤ p.2 ∧ p.2 < b)).map Prod.fst =
      (cs.take (b - k)).drop (a - k) := by
  induction cs generalizing k with
  | nil => simp
  | cons c cs ih =>
    rw [List.zipIdx_cons]
    cases hm : b - k with
    | zero =>
      have hm' : b - (k + 1) = 0 := by omega
      rw [List.filter_cons_of_neg (by simp; omega), ih, hm', List.take_zero,
        List.take_zero, List.drop_nil, List.drop_nil]
    | succ m =>
      have hm' : b - (k + 1) = m := by omega
      cases hj : a - k with
      | zero =>
        have hj' : a - (k + 1) = 0 := by omega
        rw [List.filter_cons_of_pos (by simp; omega), List.map_cons, ih, hm', hj',
          List.take_succ_cons, List.drop_zero, List.drop_zero]
      | succ j =>
        have hj' : a - (k + 1) = j := by omega
        rw [List.filter_cons_of_neg (by simp; omega), ih, hm', hj',
          List.take_succ_cons, List.drop_succ_cons]

/-- **A row underlines the characters of its range.** -/
theorem underlined_eq (l : Line) (a b : Nat) (cs : List Char) :
    underlined l a b cs = (cs.take (b - l.offset)).drop (a - l.offset) := by
  rw [underlined, ← Nat.sub_zero (b - l.offset), ← Nat.sub_zero (a - l.offset),
    ← map_fst_filter_zipIdx]
  congr 1
  refine List.filter_congr fun p _ => ?_
  rw [isUnderline_signAt, decide_eq_decide]
  omega

/-- Of two lines of a source, the one with more lines above it is below the other. -/
theorem exists_between {above above' below below' : List (List Char)}
    {line line' : List Char} (h : above ++ line :: below = above' ++ line' :: below')
    (hlt : above.length < above'.length) :
    ∃ between, above' = above ++ line :: between := by
  rcases List.append_eq_append_iff.mp h with ⟨us, rfl, hus⟩ | ⟨us, rfl, _⟩
  · cases us with
    | nil => simp at hlt
    | cons u us =>
      obtain ⟨rfl, _⟩ := List.cons.injEq .. ▸ hus
      exact ⟨us, rfl⟩
  · rw [List.length_append] at hlt
    omega

/-- The row of signs stands under its line. -/
theorem oneLine_some (width : Char → Nat) (m : Margin) (number : Nat) {l : Line}
    {a b : Nat} (label : String) (h : b ≤ l.stop) :
    ∃ rest, oneLine width m number l a b (some label) =
      m.number number ++ l.body width ++ "\n" ++
        (m.bar ++ signRow width l a b ++ "\n") ++ rest := by
  rw [oneLine, if_neg (Nat.not_lt.mpr h)]
  exact ⟨_, (String.append_assoc ..).symm⟩

/-- The first line is opened, and the last one closed. -/
theorem manyLines_some (width : Char → Nat) (m : Margin) (first last : Nat × Line)
    {a b : Nat} (label : String) (h : b ≤ last.2.stop) :
    ∃ gap rest, manyLines width m first last a b (some label) =
      m.number first.1 ++ "╭─▶ " ++ first.2.body width ++ "\n" ++ gap ++
        (m.number last.1 ++ "├─▶ " ++ last.2.body width ++ "\n") ++ rest := by
  rw [manyLines]
  dsimp only
  rw [if_neg (Nat.not_lt.mpr h), ← String.append_assoc, ← String.append_assoc]
  exact ⟨_, _, rfl⟩

/-- The source with a line cut out of it. -/
theorem eq_append_of_splitLines {cs line : List Char} {above below : List (List Char)}
    (h : splitLines cs = above ++ line :: below) :
    cs = above.flatten ++ line ++ below.flatten := by
  rw [← flatten_splitLines cs, h, List.flatten_append, List.flatten_cons,
    List.append_assoc]

section

variable (hin : n.IsIn source) (hstop : n.stop ≤ source.toList.length)

include hin hstop

/-- **The line of a range** that begins and ends in one line. -/
theorem exists_line (h : (n.first source).1 = (n.last source).1) :
    ∃ above line below, splitLines source.toList = above ++ line :: below ∧
      n.first source = (above.length, .of above.flatten.length line) ∧
      above.flatten.length ≤ n.start ∧
      n.stop ≤ above.flatten.length + line.length := by
  have hne : source.toList ≠ [] := by simpa using hin.ne_empty
  obtain ⟨above, line, below, hlines, hfirst, hle, hlt⟩ := exists_lineAt hne n.start
  refine ⟨above, line, below, hlines, hfirst, hle, ?_⟩
  rcases Nat.eq_or_lt_of_le n.start_le_stop with heq | hrange
  · omega
  · obtain ⟨above', line', below', hlines', hlast, _, hlt'⟩ :=
      exists_lineAt hne (n.stop - 1)
    rw [Notice.first, Notice.last, if_pos hrange, hfirst, hlast] at h
    -- as many lines stand above, so the line is the same
    obtain ⟨rfl, hrest⟩ := List.append_inj (hlines.symm.trans hlines') h
    obtain ⟨rfl, _⟩ := List.cons.injEq .. ▸ hrest
    omega

/-- **The lines of a range** that begins in one line and ends in another. The first is
cut where the range begins, the last where it ends. -/
theorem exists_lines (h : (n.first source).1 ≠ (n.last source).1) :
    ∃ above before opened between closed after below,
      splitLines source.toList =
        above ++ (before ++ opened) :: between ++ (closed ++ after) :: below ∧
      n.first source = (above.length, .of above.flatten.length (before ++ opened)) ∧
      n.last source = ((above ++ (before ++ opened) :: between).length,
        .of (above ++ (before ++ opened) :: between).flatten.length
          (closed ++ after)) ∧
      (above.flatten ++ before).length = n.start ∧
      ((above ++ (before ++ opened) :: between).flatten ++ closed).length = n.stop ∧
      opened ≠ [] ∧ closed ≠ [] := by
  have hne : source.toList ≠ [] := by simpa using hin.ne_empty
  have hrange : n.start < n.stop := by
    by_contra hge
    exact h (congrArg Prod.fst (if_neg hge).symm)
  obtain ⟨above, line, below, hlines, hfirst, hle, hlt⟩ := exists_lineAt hne n.start
  obtain ⟨above', line', below', hlines', hlast, hle', hlt'⟩ :=
    exists_lineAt hne (n.stop - 1)
  have hsplit := hlines.symm.trans hlines'
  rw [Notice.first, Notice.last, if_pos hrange, hfirst, hlast] at h
  obtain ⟨between, rfl⟩ : ∃ between, above' = above ++ line :: between := by
    rcases Nat.lt_or_gt_of_ne h with hlt | hgt
    · exact exists_between hsplit hlt
    · -- the range would end above the line in which it begins
      obtain ⟨between, rfl⟩ := exists_between hsplit.symm hgt
      simp only [List.flatten_append, List.flatten_cons, List.length_append] at hle
      omega
  have hlength : (above ++ line :: between).flatten.length =
      above.flatten.length + line.length + between.flatten.length := by
    simp only [List.flatten_append, List.flatten_cons, List.length_append]
    omega
  let i := n.start - above.flatten.length
  let j := n.stop - (above ++ line :: between).flatten.length
  have hline : line.take i ++ line.drop i = line := List.take_append_drop i line
  have hline' : line'.take j ++ line'.drop j = line' := List.take_append_drop j line'
  refine ⟨above, line.take i, line.drop i, between, line'.take j, line'.drop j, below',
    ?_, ?_, ?_, ?_, ?_, ?_, ?_⟩
  · rw [hline, hline', hlines']
  · rw [hline, Notice.first, hfirst]
  · rw [hline, hline', Notice.last, if_pos hrange, hlast]
  · rw [List.length_append, List.length_take]
    omega
  · rw [hline, List.length_append, List.length_take]
    omega
  · rw [Ne, List.drop_eq_nil_iff]
    omega
  · rw [Ne, List.take_eq_nil_iff]
    rintro (hj | rfl)
    · omega
    · rw [List.length_nil] at hlt'
      omega

variable {label start rest : String} {m : Margin} (hlabel : n.label = some label)

include hlabel

/-- **A range within one line is underlined.** -/
theorem underlines_of_first_eq_last (h : (n.first source).1 = (n.last source).1) :
    Underlines width (start ++ n.rows width source m ++ rest) n source.toList
      ((source.toList.take n.stop).drop n.start) := by
  obtain ⟨above, line, below, hlines, hfirst, hle, hend⟩ := exists_line hin hstop h
  obtain ⟨more, hrow⟩ := oneLine_some width m above.length label
    (l := .of above.flatten.length line) (a := n.start) hend
  refine ⟨m, above, line, below, start, more ++ rest, hlines, ?_, ?_⟩
  · rw [Notice.rows, if_pos h, hfirst, hlabel, hrow]
    simp only [String.append_assoc]
  · rw [underlined_eq, eq_append_of_splitLines hlines,
      drop_take_append hle n.start_le_stop hend]
    rfl

/-- **A range over several lines is bracketed.** -/
theorem brackets_of_first_ne_last (h : (n.first source).1 ≠ (n.last source).1) :
    Brackets width (start ++ n.rows width source m ++ rest) source.toList
      ((source.toList.take n.stop).drop n.start) := by
  obtain ⟨above, before, opened, between, closed, after, below, hlines, hfirst, hlast,
    hstart, hend, hopened, hclosed⟩ := exists_lines hin hstop h
  have hle : n.stop ≤ (n.last source).2.stop := by
    rw [hlast, Line.stop_of, ← hend, List.length_append]
    exact Nat.add_le_add_left (List.sublist_append_left closed after).length_le _
  obtain ⟨gap, more, hrows⟩ := manyLines_some width m (n.first source) (n.last source)
    (a := n.start) label hle
  refine ⟨m, above, before, opened, between, closed, after, below, start, gap,
    more ++ rest, hlines, ?_, hopened, hclosed, ?_⟩
  · rw [Notice.rows, if_neg h, hlabel, hrows, hfirst, hlast]
    simp only [String.append_assoc]
  · have hparts : source.toList = above.flatten ++ before ++
        (opened ++ between.flatten ++ closed) ++ (after ++ below.flatten) := by
      rw [eq_append_of_splitLines hlines, List.flatten_append, List.flatten_cons]
      simp only [List.append_assoc]
    rw [List.flatten_append, List.flatten_cons] at hend
    rw [hparts, drop_take_eq hstart]
    simp only [← hend, List.append_assoc]

end

/-- **What a drawing covers, its rows mark**: within one line by a row of signs under
the characters, over several lines between the line that is opened and the one that
is closed. -/
theorem marks_ruledDrawing {label : String} (hlabel : n.label = some label)
    (hplace : (ruledDrawing width n source).place.isSome)
    (hcovered : (ruledDrawing width n source).covered = some piece) :
    Underlines width (ruledDrawing width n source).text n source.toList
        piece.toList ∨
      Brackets width (ruledDrawing width n source).text source.toList
        piece.toList := by
  have hin := isSome_place_ruledDrawing.mp hplace
  obtain ⟨m, hm⟩ := ruledDrawing_of_isIn width hin
  rw [hm] at hcovered ⊢
  split at hcovered
  · next hstop =>
    obtain rfl := Option.some.inj hcovered
    rw [String.toList_ofList, ← String.append_assoc]
    by_cases h : (n.first source).1 = (n.last source).1
    · exact .inl (underlines_of_first_eq_last hin hstop hlabel h)
    · exact .inr (brackets_of_first_ne_last hin hstop hlabel h)
  · cases hcovered

end Report

end Descent
