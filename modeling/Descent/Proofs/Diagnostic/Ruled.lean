import Descent.Diagnostic.Ruled
import Descent.Proofs.Diagnostic.Header

/-!
# The renderer that draws with rules

It finds the line of a character among the lines of the source, which end at more
characters than line feeds, and there is no line after the last line end of a source.
That is counting over its breaks (`Report.placeOf_eq`), so that it is one of the
renderers that count characters (`Report.ruled_countsCharacters`). It sees the lines
that a position sees where all lines end at line feeds (`Report.ruled_sameLines`).
-/

namespace Descent

namespace Report

/-! ## Lines -/

/-- The place of the character at an index, as a report finds it. -/
def placeOf (source : List Char) (x : Nat) : Nat × Nat :=
  let found := lineAt (linesOf source) x
  (found.1 + 1, x - found.2.offset + 1)

/-- The characters of some lines after which a new line begins: the last of each
line but the last. -/
def endsOf : List (List Char) → List Bool
  | [] => []
  | l :: ls => List.replicate (l.length - 1) false ++ (!ls.isEmpty) :: endsOf ls

theorem splitLines_eq_nil_iff {cs : List Char} : splitLines cs = [] ↔ cs = [] := by
  fun_cases splitLines cs <;> simp_all

/-- No line of a source is empty. -/
theorem ne_nil_of_mem_splitLines {cs l : List Char} (h : l ∈ splitLines cs) :
    l ≠ [] := by
  fun_induction splitLines cs generalizing l with
  | case1 => cases h
  | case2 cs ih | case3 c cs _ _ ih =>
    rcases List.mem_cons.mp h with rfl | h
    · exact List.cons_ne_nil _ _
    · exact ih h
  | case4 c cs _ _ hnil =>
    rw [List.mem_singleton.mp h]
    exact List.cons_ne_nil _ _
  | case5 c cs _ _ l' ls hls ih =>
    rcases List.mem_cons.mp h with rfl | h
    · exact List.cons_ne_nil _ _
    · exact ih (hls ▸ List.mem_cons_of_mem _ h)

/-- The marks of a source are those of its lines. -/
theorem lineEnds_eq_endsOf (cs : List Char) :
    lineEnds cs = endsOf (splitLines cs) := by
  have hempty (ds : List Char) : (splitLines ds).isEmpty = ds.isEmpty := by
    rw [Bool.eq_iff_iff, List.isEmpty_iff, List.isEmpty_iff, splitLines_eq_nil_iff]
  fun_induction splitLines cs with
  | case1 => rfl
  | case2 cs ih =>
    rw [lineEnds, lineEnds, endsOf, ih, hempty]
    simp [endsLine, isLineEnd]
  | case3 c cs hreturn hend ih =>
    rw [lineEnds, endsOf, ih, hempty]
    have hpair : (c == '\r' && cs.head? == some '\n') = false := by
      cases cs <;> simp_all
    simp [endsLine, hend, hpair]
  | case4 c cs _ hend hnil =>
    rw [lineEnds, splitLines_eq_nil_iff.mp hnil]
    simp [endsLine, endsOf, lineEnds]
  | case5 c cs _ hend l ls hls ih =>
    have hl : l ≠ [] := ne_nil_of_mem_splitLines (hls ▸ List.mem_cons_self)
    have hpos := List.length_pos_iff.mpr hl
    obtain ⟨n, hn⟩ : ∃ n, l.length = n + 1 := ⟨l.length - 1, by omega⟩
    rw [lineEnds, ih, hls, endsOf, endsOf, List.length_cons, hn]
    simp [endsLine, hend, List.replicate_succ]

/-- There is a mark for each character. -/
@[simp] theorem length_lineEnds (cs : List Char) :
    (lineEnds cs).length = cs.length := by
  induction cs with
  | nil => rfl
  | cons c cs ih => rw [lineEnds, List.length_cons, ih, List.length_cons]

/-- The mark of a character. -/
theorem getElem?_lineEnds (before rest : List Char) {c : Char} :
    (lineEnds (before ++ c :: rest))[before.length]? = some (endsLine c rest) := by
  induction before with
  | nil => rfl
  | cons d before ih => exact ih

/-! ## The line of a character -/

variable {l l' : List Char} {ls : List (List Char)}

/-- A character of the first line is found there. -/
theorem lineAt_place_of_lt {o x : Nat} (h : x < l.length ∨ ls = []) :
    lineAt (place o (l :: ls)) (o + x) = (0, .of o l) := by
  have hnext : (place (o + l.length) ls).takeWhile (·.offset ≤ o + x) = [] := by
    cases ls with
    | nil => rfl
    | cons l' ls =>
      have hx : x < l.length := h.resolve_right (List.cons_ne_nil _ _)
      rw [place, List.takeWhile_cons_of_neg]
      simp
      omega
  simp [lineAt, place, hnext]

/-- A character past the first line is found in the others. -/
theorem lineAt_place_of_le {o x : Nat} (h : l.length ≤ x) :
    lineAt (place o (l :: l' :: ls)) (o + x) =
      ((lineAt (place (o + l.length) (l' :: ls)) (o + x)).1 + 1,
        (lineAt (place (o + l.length) (l' :: ls)) (o + x)).2) := by
  simp [lineAt, place, h]

/-- There is no mark in the first line before its end. -/
theorem take_endsOf_of_lt {x : Nat}
    (h : x < l.length ∨ x ≤ l.length ∧ ls = []) :
    (endsOf (l :: ls)).take x = List.replicate x false := by
  rcases h with h | ⟨h, rfl⟩
  · rw [endsOf, List.take_append_of_le_length (by simp; omega), List.take_replicate,
      Nat.min_eq_left (by omega)]
  · cases x with
    | zero => rfl
    | succ x =>
      obtain ⟨n, hn⟩ : ∃ n, l.length = n + 1 := ⟨l.length - 1, by omega⟩
      have hends : endsOf [l] = List.replicate (n + 1) false := by
        rw [endsOf, hn, List.replicate_succ']
        rfl
      rw [hends, List.take_replicate, Nat.min_eq_left (by omega)]

/-- The marks of the first line, with its end. -/
theorem take_endsOf_of_le {x : Nat} (hl : l ≠ []) (h : l.length ≤ x) :
    (endsOf (l :: ls)).take x = List.replicate (l.length - 1) false ++
      (!ls.isEmpty) :: (endsOf ls).take (x - l.length) := by
  have hpos := List.length_pos_iff.mpr hl
  obtain ⟨y, rfl⟩ : ∃ y, x = l.length - 1 + (y + 1) := ⟨x - l.length, by omega⟩
  have hy : l.length - 1 + (y + 1) - l.length = y := by omega
  rw [endsOf, hy, List.take_append, List.length_replicate, Nat.add_sub_cancel_left,
    List.take_of_length_le (by simp), List.take_succ_cons]

/-- **The place of a character**, counted over the marks of the lines. -/
theorem foldl_step_endsOf {k o x : Nat} (hne : ∀ line ∈ l :: ls, line ≠ [])
    (hx : x ≤ (l :: ls).flatten.length) :
    ((endsOf (l :: ls)).take x).foldl step (k, 1) =
      (k + (lineAt (place o (l :: ls)) (o + x)).1,
        o + x - (lineAt (place o (l :: ls)) (o + x)).2.offset + 1) := by
  induction ls generalizing l k o x with
  | nil =>
    rw [List.flatten_singleton] at hx
    rw [lineAt_place_of_lt (.inr rfl), take_endsOf_of_lt (.inr ⟨hx, rfl⟩),
      foldl_step_replicate]
    exact Prod.ext rfl (by simp; omega)
  | cons l' ls ih =>
    obtain ⟨hl, hrest⟩ := List.forall_mem_cons.mp hne
    rcases Nat.lt_or_ge x l.length with hlt | hge
    · rw [lineAt_place_of_lt (.inl hlt), take_endsOf_of_lt (.inl hlt),
        foldl_step_replicate]
      exact Prod.ext rfl (by simp; omega)
    · rw [List.flatten_cons, List.length_append] at hx
      have hsum : o + l.length + (x - l.length) = o + x := by omega
      have hrec := ih (k := k + 1) (o := o + l.length) (x := x - l.length) hrest
        (by omega)
      rw [hsum] at hrec
      rw [lineAt_place_of_le hge, take_endsOf_of_le hl hge, List.foldl_append,
        foldl_step_replicate]
      refine hrec.trans (Prod.ext ?_ rfl)
      show k + 1 + _ = k + (_ + 1)
      omega

/-- The lines of a source put together are the source. -/
theorem flatten_splitLines (cs : List Char) : (splitLines cs).flatten = cs := by
  fun_induction splitLines cs <;> simp_all

/-- **A report finds a place by counting**: over the characters after which it
begins a new line. -/
theorem placeOf_eq {source : List Char} {x : Nat} (hsource : source ≠ [])
    (hx : x ≤ source.length) :
    placeOf source x = placeAfter ((lineEnds source).take x) := by
  obtain ⟨l, ls, hls⟩ := List.exists_cons_of_ne_nil
    (mt splitLines_eq_nil_iff.mp hsource)
  have hne : ∀ line ∈ l :: ls, line ≠ [] := fun _ h =>
    ne_nil_of_mem_splitLines (hls ▸ h)
  have hflatten : (l :: ls).flatten = source := hls ▸ flatten_splitLines source
  have hplace := foldl_step_endsOf (k := 1) (o := 0) hne (hflatten ▸ hx)
  rw [placeAfter, lineEnds_eq_endsOf, hls, hplace, placeOf, linesOf, hls,
    Nat.zero_add]
  exact Prod.ext (Nat.add_comm _ _) rfl

/-! ## The lines that hold a place -/

/-- **The line of a character** has as many lines above it as its number says. It
begins at the character or before it, and goes beyond it if there is a line below. -/
theorem exists_lineAt_place (l : List Char) (ls : List (List Char)) (o x : Nat) :
    ∃ above line below, l :: ls = above ++ line :: below ∧
      lineAt (place o (l :: ls)) (o + x) =
        (above.length, .of (o + above.flatten.length) line) ∧
      above.flatten.length ≤ x ∧
      (below ≠ [] → x < above.flatten.length + line.length) := by
  induction ls generalizing l o x with
  | nil =>
    exact ⟨[], l, [], rfl, lineAt_place_of_lt (.inr rfl), Nat.zero_le x,
      fun h => absurd rfl h⟩
  | cons l' ls ih =>
    rcases Nat.lt_or_ge x l.length with hlt | hge
    · exact ⟨[], l, l' :: ls, rfl, lineAt_place_of_lt (.inl hlt), Nat.zero_le x,
        fun _ => by simpa using hlt⟩
    · obtain ⟨above, line, below, hlines, hat, hle, hlt⟩ :=
        ih l' (o + l.length) (x - l.length)
      have hsum : o + l.length + (x - l.length) = o + x := by omega
      rw [hsum] at hat
      refine ⟨l :: above, line, below, by rw [hlines, List.cons_append], ?_, ?_, ?_⟩
      · rw [lineAt_place_of_le hge, hat, List.flatten_cons, List.length_append,
          Nat.add_assoc]
        rfl
      · rw [List.flatten_cons, List.length_append]
        omega
      · intro hbelow
        have := hlt hbelow
        rw [List.flatten_cons, List.length_append]
        omega

/-- **The line of a character of a source**, or of its end: it goes beyond the
character, or it is the last one. -/
theorem exists_lineAt {source : List Char} (hsource : source ≠ []) (x : Nat) :
    ∃ above line below, splitLines source = above ++ line :: below ∧
      lineAt (linesOf source) x = (above.length, .of above.flatten.length line) ∧
      above.flatten.length ≤ x ∧
      (x < above.flatten.length + line.length ∨
        source.length = above.flatten.length + line.length) := by
  obtain ⟨l, ls, hls⟩ := List.exists_cons_of_ne_nil
    (mt splitLines_eq_nil_iff.mp hsource)
  obtain ⟨above, line, below, hlines, hat, hle, hlt⟩ := exists_lineAt_place l ls 0 x
  refine ⟨above, line, below, hls.trans hlines, ?_, hle, ?_⟩
  · rw [linesOf, hls]
    simpa using hat
  · cases below with
    | cons => exact .inl (hlt (List.cons_ne_nil _ _))
    | nil =>
      have hflatten := congrArg List.length (flatten_splitLines source)
      rw [hls, hlines, List.flatten_append, List.flatten_singleton,
        List.length_append] at hflatten
      exact .inr hflatten.symm

/-! ## The renderer counts characters -/

variable {width : Char → Nat} {n : Notice} {source piece : String}

/-- **The place of a notice lies in a source**, as a range of characters. -/
structure Notice.IsIn (n : Notice) (source : String) : Prop where
  /-- There is a line. -/
  ne_empty : source ≠ ""
  /-- The range begins in the source, or at its end. -/
  start_le : n.start ≤ source.toList.length
  /-- It goes one character beyond the source at most. -/
  stop_le : n.start < n.stop → n.stop - 1 ≤ source.toList.length

theorem isEmpty_linesOf_iff :
    (linesOf source.toList).isEmpty = true ↔ source = "" := by
  rw [← String.toList_inj, String.toList_empty, ← splitLines_eq_nil_iff]
  unfold linesOf
  cases splitLines source.toList <;> simp [place]

/-- When a report has more than its first line. -/
theorem Notice.isIn_iff :
    n.IsIn source ↔
      ¬ ((linesOf source.toList).isEmpty = true ∨
        source.toList.length < n.start ∨
        n.start < n.stop ∧ source.toList.length < n.stop - 1) := by
  rw [isEmpty_linesOf_iff]
  constructor
  · rintro ⟨hne, hstart, hstop⟩ (h | h | ⟨h, h'⟩)
    · exact hne h
    · omega
    · have := hstop h
      omega
  · intro h
    obtain ⟨hne, hstart, hstop⟩ := not_or.mp h |>.imp_right not_or.mp
    exact ⟨hne, by omega, fun hlt => by omega⟩

/-- The number and the line in which a notice begins. -/
def Notice.first (n : Notice) (source : String) : Nat × Line :=
  lineAt (linesOf source.toList) n.start

/-- The number and the line in which a notice ends. -/
def Notice.last (n : Notice) (source : String) : Nat × Line :=
  if n.start < n.stop then lineAt (linesOf source.toList) (n.stop - 1)
  else n.first source

/-- The source lines of the report of a notice. -/
def Notice.rows (width : Char → Nat) (n : Notice) (source : String) (m : Margin) :
    String :=
  if (n.first source).1 = (n.last source).1 then
    oneLine width m (n.first source).1 (n.first source).2 n.start n.stop n.label
  else manyLines width m (n.first source) (n.last source) n.start n.stop n.label

/-- **The drawing of a notice in its source**: its first line, the head with the
place, the rows and the closing line. -/
theorem ruledDrawing_of_isIn (width : Char → Nat) (h : n.IsIn source) :
    ∃ m : Margin, ruledDrawing width n source =
      { text := head n.code n.message ++
          m.opening (placeOf source.toList n.start).1
            (placeOf source.toList n.start).2 ++
          (n.rows width source m ++ m.closing)
        place := some (placeOf source.toList n.start)
        covered := if n.stop ≤ source.toList.length then
            some (.ofList ((source.toList.take n.stop).drop n.start)) else none } := by
  unfold ruledDrawing
  simp only [if_neg (Notice.isIn_iff.mp h)]
  exact ⟨_, rfl⟩

/-- A drawing whose place does not lie in the source is its first line. -/
theorem ruledDrawing_of_not_isIn (h : ¬ n.IsIn source) :
    ruledDrawing width n source = ⟨head n.code n.message, none, none⟩ :=
  if_pos (not_not.mp (mt Notice.isIn_iff.mpr h))

theorem isSome_place_ruledDrawing :
    (ruledDrawing width n source).place.isSome ↔ n.IsIn source := by
  by_cases h : n.IsIn source
  · obtain ⟨m, hm⟩ := ruledDrawing_of_isIn width h
    simp [hm, h]
  · simp [ruledDrawing_of_not_isIn h, h]

theorem take_append_drop_take {a b : Nat} (h : a ≤ b) (cs : List Char) :
    cs.take a ++ (cs.take b).drop a = cs.take b := by
  conv_rhs => rw [← List.take_append_drop a (cs.take b), List.take_take,
    Nat.min_eq_left h]

/-- The characters of a range, where they are known to stand. -/
theorem drop_take_eq {u p v : List Char} {a b : Nat} (ha : u.length = a)
    (hb : (u ++ p).length = b) : ((u ++ p ++ v).take b).drop a = p := by
  rw [← hb, List.take_left, ← ha, List.drop_left]

/-- The characters of a range within a line. -/
theorem drop_take_append {above line : List Char} {a b : Nat} (ha : above.length ≤ a)
    (hab : a ≤ b) (hb : b ≤ above.length + line.length) (below : List Char) :
    ((above ++ line ++ below).take b).drop a =
      (line.take (b - above.length)).drop (a - above.length) := by
  obtain ⟨i, rfl⟩ := Nat.exists_eq_add_of_le ha
  obtain ⟨j, rfl⟩ := Nat.exists_eq_add_of_le (Nat.le_trans ha hab)
  rw [List.append_assoc, List.take_length_add_append, List.drop_length_add_append,
    List.take_append_of_le_length (by omega), Nat.add_sub_cancel_left,
    Nat.add_sub_cancel_left]

/-- The characters of a range are a piece of the source. -/
theorem eq_drop_take_iff {a b : Nat} (hab : a ≤ b) :
    (b ≤ source.toList.length ∧
        String.ofList ((source.toList.take b).drop a) = piece) ↔
      ∃ before after, source = before ++ piece ++ after ∧
        before.toList.length = a ∧ (before ++ piece).toList.length = b := by
  constructor
  · rintro ⟨hb, rfl⟩
    refine ⟨.ofList (source.toList.take a), .ofList (source.toList.drop b), ?_, ?_, ?_⟩
    · rw [← String.ofList_append, take_append_drop_take hab, ← String.ofList_append,
        List.take_append_drop, String.ofList_toList]
    · rw [String.toList_ofList, List.length_take]
      omega
    · rw [← String.ofList_append, take_append_drop_take hab, String.toList_ofList,
        List.length_take]
      omega
  · rintro ⟨before, after, rfl, ha, hb⟩
    rw [String.toList_append] at hb
    rw [String.toList_append, String.toList_append, drop_take_eq ha hb,
      String.ofList_toList, List.length_append]
    exact ⟨by omega, rfl⟩

/-- **The renderer that draws with rules counts characters.** -/
theorem ruled_countsCharacters (width : Char → Nat) :
    (ruled width).CountsCharacters where
  length_breaks := length_lineEnds
  breaks_lineFeed before {rest} h := by
    refine (getElem?_lineEnds before rest).trans (congrArg some ?_)
    simpa [endsLine, isLineEnd] using h
  place_eq {n source d p} h hp := by
    obtain rfl := Option.some.inj h
    have hin := isSome_place_ruledDrawing.mp (Option.isSome_of_eq_some hp)
    obtain ⟨m, hm⟩ := ruledDrawing_of_isIn width hin
    rw [hm] at hp
    obtain rfl := Option.some.inj hp
    exact ⟨hin.start_le, placeOf_eq (by simpa using hin.ne_empty) hin.start_le⟩
  covered_iff {n source piece d} h hp := by
    obtain rfl := Option.some.inj h
    obtain ⟨m, hm⟩ := ruledDrawing_of_isIn width
      (isSome_place_ruledDrawing.mp hp)
    rw [← eq_drop_take_iff n.start_le_stop, hm]
    by_cases hstop : n.stop ≤ source.toList.length <;> simp [hstop]
  drawn {n source} hne hstop := by
    have hle := n.start_le_stop
    exact ⟨_, rfl, isSome_place_ruledDrawing.mpr ⟨hne, by omega, fun _ => by omega⟩⟩

/-- **If all line ends before a place are line feeds**, the lines are the same, unless
the place is at the end of the source and begins a line there. -/
theorem ruled_sameLines {before rest : List Char}
    (h : ∀ c ∈ before, isLineEnd c = true → c = '\n')
    (hend : rest = [] → before.getLast? ≠ some '\n') :
    (ruled width).SameLines before rest := by
  intro i c hc
  obtain ⟨u, v, rfl, rfl⟩ : ∃ u v, before = u ++ c :: v ∧ u.length = i := by
    obtain ⟨hi, rfl⟩ := List.getElem?_eq_some_iff.mp hc
    exact ⟨before.take i, before.drop (i + 1), by simp, by simp; omega⟩
  show (lineEnds _)[u.length]? = some true ↔ _
  rw [List.append_assoc, List.cons_append, getElem?_lineEnds, Option.some.injEq]
  refine ⟨fun hends => h c (by simp) ?_, ?_⟩
  · simp only [endsLine, Bool.and_eq_true] at hends
    exact hends.1.1
  · rintro rfl
    have hne : v ++ rest ≠ [] := by
      intro hnil
      obtain ⟨rfl, hrest⟩ := List.append_eq_nil_iff.mp hnil
      exact hend hrest (by simp)
    simpa [endsLine, isLineEnd] using hne

end Report

end Descent
