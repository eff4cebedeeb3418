import Mathlib.Data.List.Forall2
import Descent.Diagnostic.Report
import Descent.Text.Position

/-!
# Lines of a report and lines of positions

A position counts lines and columns while it advances, and lines end at line feeds.
A report finds the line of a character among the lines that its renderer sees in the
source. Both come down to which characters begin a new line: a place is counted over
one mark for each character before it (`Report.placeAfter`). For positions the marks
are the line feeds (`Position.place_of_advance`), for reports they are the breaks of
the renderer.

Nothing is said here of how a renderer draws. What is asked of it is what one may
rely on: that it takes indices for indices of characters and counts places from them,
and that a line feed ends a line (`Renderer.CountsCharacters`). That is enough to say
when the two agree on a place: exactly if no mark before it differs, and a report
that looks too far never agrees by accident (`CountsCharacters.place_eq_iff`). Both
hold because a report has a mark wherever a position has one, and more marks can only
move a place further (`Report.placeAfter_append_ne`). The one exception is a line
feed at the very end, after which a renderer need not see a line
(`Report.placeAfter_concat_eq_iff`).
-/

namespace Descent

namespace Report

/-! ## Places by marks -/

/-- The line and the column after one more character. -/
def step (p : Nat × Nat) (ends : Bool) : Nat × Nat :=
  if ends then (p.1 + 1, 1) else (p.1, p.2 + 1)

/-- **The line and the column after some characters**, both counted from one, given
which of them end a line. -/
def placeAfter (ends : List Bool) : Nat × Nat := ends.foldl step (1, 1)

@[simp] theorem step_true (p : Nat × Nat) : step p true = (p.1 + 1, 1) := rfl

@[simp] theorem step_false (p : Nat × Nat) : step p false = (p.1, p.2 + 1) := rfl

/-- Characters that end no line are so many columns. -/
theorem foldl_step_replicate (n : Nat) (p : Nat × Nat) :
    (List.replicate n false).foldl step p = (p.1, p.2 + n) := by
  induction n generalizing p with
  | zero => rfl
  | succ n ih =>
    rw [List.replicate_succ, List.foldl_cons, ih, step_false]
    exact Prod.ext rfl (by omega)

theorem placeAfter_concat (ends : List Bool) (e : Bool) :
    placeAfter (ends ++ [e]) = step (placeAfter ends) e := by
  simp [placeAfter]

/-- The line is the number of marks, and one. -/
theorem fst_foldl_step (ends : List Bool) (p : Nat × Nat) :
    (ends.foldl step p).1 = p.1 + ends.count true := by
  induction ends generalizing p with
  | nil => rfl
  | cons e ends ih =>
    rw [List.foldl_cons, ih]
    cases e with
    | false => simp
    | true => simp; omega

theorem one_le_snd_placeAfter (ends : List Bool) : 1 ≤ (placeAfter ends).2 := by
  rcases List.eq_nil_or_concat ends with rfl | ⟨ends, e, rfl⟩
  · exact Nat.le_refl 1
  · rw [List.concat_eq_append, placeAfter_concat]
    cases e <;> simp

/-- **More marks**: each character that ends a line for the first ends one for the
second. -/
abbrev MoreEnds : List Bool → List Bool → Prop :=
  List.Forall₂ fun e e' => e = true → e' = true

variable {ends ends' more : List Bool}

theorem MoreEnds.count_le (h : MoreEnds ends ends') :
    ends.count true ≤ ends'.count true := by
  induction h with
  | nil => exact Nat.le_refl 0
  | @cons e e' _ _ he _ ih => cases e <;> cases e' <;> simp_all; omega

/-- More marks that are as many are the same. -/
theorem MoreEnds.eq_of_count (h : MoreEnds ends ends')
    (hcount : ends.count true = ends'.count true) : ends = ends' := by
  induction h with
  | nil => rfl
  | @cons e e' l l' he hrest ih =>
    have hle := MoreEnds.count_le hrest
    cases e with
    | true =>
      obtain rfl := he rfl
      rw [ih (by simpa using hcount)]
    | false =>
      cases e' with
      | false => rw [ih (by simpa using hcount)]
      | true =>
        simp only [List.count_cons, beq_self_eq_true, if_true] at hcount
        simp at hcount
        omega

/-- **With more marks, a place stays exactly if no mark is new.** -/
theorem placeAfter_eq_iff (h : MoreEnds ends ends') :
    placeAfter ends = placeAfter ends' ↔ ends = ends' := by
  refine ⟨fun heq => h.eq_of_count ?_, congrArg _⟩
  have hline := congrArg Prod.fst heq
  rw [placeAfter, placeAfter, fst_foldl_step, fst_foldl_step] at hline
  omega

/-- **With more marks, a later place is another place.** -/
theorem placeAfter_append_ne (h : MoreEnds ends ends') (hmore : more ≠ []) :
    placeAfter ends ≠ placeAfter (ends' ++ more) := by
  intro heq
  have hline := congrArg Prod.fst heq
  rw [placeAfter, placeAfter, fst_foldl_step, fst_foldl_step, List.count_append]
    at hline
  have hle := h.count_le
  -- no mark is new, so the later place is on the same line
  obtain rfl := h.eq_of_count (by omega)
  have hnone : more = List.replicate more.length false := by
    refine List.eq_replicate_iff.mpr ⟨rfl, fun e he => ?_⟩
    have hzero : more.count true = 0 := by omega
    cases e with
    | false => rfl
    | true => exact absurd he (List.count_eq_zero.mp hzero)
  rw [hnone, placeAfter, placeAfter, List.foldl_append, foldl_step_replicate] at heq
  have hcolumn : (placeAfter ends).2 = (placeAfter ends).2 + more.length :=
    congrArg Prod.snd heq
  have hpos := List.length_pos_iff.mpr hmore
  omega

/-- **A place stays exactly if no mark is new**, also where the last character may
have lost its mark. -/
theorem placeAfter_concat_eq_iff {e e' : Bool} (h : MoreEnds ends ends') :
    placeAfter (ends ++ [e]) = placeAfter (ends' ++ [e']) ↔
      ends ++ [e] = ends' ++ [e'] := by
  refine ⟨fun heq => ?_, congrArg _⟩
  rw [placeAfter_concat, placeAfter_concat] at heq
  have hline := congrArg Prod.fst heq
  have hcolumn := congrArg Prod.snd heq
  have hpos := one_le_snd_placeAfter ends
  have hpos' := one_le_snd_placeAfter ends'
  cases e <;> cases e' <;>
    simp only [step_true, step_false, Nat.add_right_cancel_iff] at hline hcolumn
  case false.false =>
    rw [(placeAfter_eq_iff h).mp (Prod.ext hline hcolumn)]
  -- with one mark the new column is the first, without it a later one
  case false.true | true.false => omega
  case true.true =>
    rw [placeAfter, placeAfter, fst_foldl_step, fst_foldl_step] at hline
    rw [h.eq_of_count (by omega)]

end Report

/-! ## The marks of positions -/

open Report (step placeAfter)

namespace Position

variable {p q : Position}

/-- The line and the column of a position. -/
def place (p : Position) : Nat × Nat := (p.line.toNat, p.column.toNat)

theorem toNat_of_increment {n k : UInt32} (h : increment n = .ok k) :
    k.toNat = n.toNat + 1 := by
  unfold increment at h
  split at h
  · next hlt =>
    obtain rfl := Except.ok.inj h
    rw [UInt32.toNat_add]
    exact Nat.mod_eq_of_lt hlt
  · cases h

/-- One character is one mark. -/
theorem place_of_next {c : Char} (h : p.next c = .ok q) :
    q.place = step p.place (c == '\n') := by
  unfold next at h
  split at h
  · next hc =>
    cases hk : increment p.line with
    | error f => simp [hk, bind, Except.bind] at h
    | ok k =>
      simp only [hk, bind, Except.bind, pure, Except.pure, Except.ok.injEq] at h
      subst h hc
      exact Prod.ext (toNat_of_increment hk) rfl
  · next hc =>
    cases hk : increment p.column with
    | error f => simp [hk, bind, Except.bind] at h
    | ok k =>
      simp only [hk, bind, Except.bind, pure, Except.pure, Except.ok.injEq] at h
      subst h
      rw [beq_false_of_ne hc]
      exact Prod.ext rfl (toNat_of_increment hk)

theorem place_of_advanceChars {cs : List Char} (h : p.advanceChars cs = .ok q) :
    q.place = (cs.map (· == '\n')).foldl step p.place := by
  induction cs generalizing p with
  | nil =>
    obtain rfl := Except.ok.inj h
    rfl
  | cons c cs ih =>
    rw [advanceChars_cons] at h
    cases hp : p.next c with
    | error f => simp [hp, Except.bind] at h
    | ok p' =>
      rw [hp] at h
      rw [List.map_cons, List.foldl_cons, ← place_of_next hp]
      exact ih h

/-- **A position is counted over the line feeds** before it. -/
theorem place_of_advance {text : String} (h : start.advance text = .ok p) :
    p.place = placeAfter (text.toList.map (· == '\n')) :=
  place_of_advanceChars h

end Position

/-! ## What a renderer is relied on for -/

namespace Report

/-- **What one may rely on in a renderer**: it reads the indices of a notice as
indices of *characters*, and counts lines and columns from them. Which characters it
breaks lines at, beside line feeds, and what it draws, is its own. -/
structure Renderer.CountsCharacters (R : Renderer) : Prop where
  /-- Each character has its mark. -/
  length_breaks (cs : List Char) : (R.breaks cs).length = cs.length
  /-- A line feed ends a line, if there is another. -/
  breaks_lineFeed (before : List Char) {rest : List Char} (h : rest ≠ []) :
    (R.breaks (before ++ '\n' :: rest))[before.length]? = some true
  /-- A report that shows a place stands at a character of the source or at its end,
  and shows the line and the column that are counted over the lines before. -/
  place_eq {n : Notice} {source : String} {d : Drawing} {p : Nat × Nat}
    (h : R.draw n source = some d) (hp : d.place = some p) :
    n.start ≤ source.toList.length ∧
      p = placeAfter ((R.breaks source.toList).take n.start)
  /-- If it shows a place, its label covers the characters from where it begins to
  where it ends. -/
  covered_iff {n : Notice} {source piece : String} {d : Drawing}
    (h : R.draw n source = some d) (hp : d.place.isSome) :
    d.covered = some piece ↔
      ∃ before after, source = before ++ piece ++ after ∧
        before.toList.length = n.start ∧ (before ++ piece).toList.length = n.stop
  /-- A report about characters of a source that is not empty shows a place. -/
  drawn {n : Notice} {source : String} (hne : source ≠ "")
    (hstop : n.stop ≤ source.toList.length) :
    ∃ d, R.draw n source = some d ∧ d.place.isSome

/-! ## Where the two agree -/

/-- **A report and a position see the same lines before a place**: the line feeds
are the characters after which the renderer begins a new line. -/
def Renderer.SameLines (R : Renderer) (before rest : List Char) : Prop :=
  ∀ (i : Nat) (c : Char), before[i]? = some c →
    ((R.breaks (before ++ rest))[i]? = some true ↔ c = '\n')

namespace Renderer.CountsCharacters

variable {R : Renderer} {before rest : List Char} (hR : R.CountsCharacters)

include hR

theorem length_take_breaks (before rest : List Char) :
    ((R.breaks (before ++ rest)).take before.length).length = before.length := by
  simp [hR.length_breaks]

/-- The same lines are the same marks. -/
theorem sameLines_iff :
    R.SameLines before rest ↔
      before.map (· == '\n') =
        (R.breaks (before ++ rest)).take before.length := by
  have hget {i : Nat} {c : Char} (hc : before[i]? = some c) :
      ((R.breaks (before ++ rest)).take before.length)[i]? =
        (R.breaks (before ++ rest))[i]? :=
    List.getElem?_take_of_lt (List.getElem?_eq_some_iff.mp hc).1
  constructor
  · intro h
    refine List.ext_getElem? fun i => ?_
    rw [List.getElem?_map]
    cases hc : before[i]? with
    | none =>
      have hlength := List.getElem?_eq_none_iff.mp hc
      rw [← hR.length_take_breaks before rest] at hlength
      exact (List.getElem?_eq_none hlength).symm
    | some c =>
      have hi : i < (R.breaks (before ++ rest)).length := by
        have := (List.getElem?_eq_some_iff.mp hc).1
        rw [hR.length_breaks, List.length_append]
        omega
      have hmark := h i c hc
      rw [List.getElem?_eq_getElem hi, Option.some.injEq] at hmark
      rw [hget hc, List.getElem?_eq_getElem hi, Option.map_some, Option.some.injEq,
        Bool.eq_iff_iff, beq_iff_eq]
      exact hmark.symm
  · intro h i c hc
    rw [← hget hc, ← h, List.getElem?_map, hc]
    simp

/-- A report begins a new line wherever a position does, if there is one. -/
theorem moreEnds_breaks (h : rest ≠ []) :
    MoreEnds (before.map (· == '\n'))
      ((R.breaks (before ++ rest)).take before.length) := by
  refine List.forall₂_iff_get.mpr ⟨?_, fun i hi hi' hc => ?_⟩
  · rw [List.length_map, hR.length_take_breaks]
  · rw [List.length_map] at hi
    have hfeed : before[i] = '\n' := by simpa using hc
    have hsplit : before ++ rest =
        before.take i ++ '\n' :: (before.drop (i + 1) ++ rest) := by
      rw [← hfeed, ← List.cons_append, ← List.drop_eq_getElem_cons hi,
        ← List.append_assoc, List.take_append_drop]
    have hmore : before.drop (i + 1) ++ rest ≠ [] := fun hnil =>
      h (List.append_eq_nil_iff.mp hnil).2
    have hmark := hR.breaks_lineFeed (before.take i) hmore
    rw [← hsplit, List.length_take, Nat.min_eq_left (Nat.le_of_lt hi)] at hmark
    rw [List.get_eq_getElem, List.getElem_take]
    exact (List.getElem?_eq_some_iff.mp hmark).2

/-- A place that is found at its own character is the counted one exactly if the
lines before it are the same. -/
theorem placeAfter_eq_iff_sameLines :
    placeAfter (before.map (· == '\n')) =
        placeAfter ((R.breaks (before ++ rest)).take before.length) ↔
      R.SameLines before rest := by
  rw [hR.sameLines_iff]
  rcases List.eq_nil_or_concat before with rfl | ⟨u, c, rfl⟩
  · simp
  · -- after the last character there may be no line, before it there is one
    have hmore : MoreEnds (u.map (· == '\n'))
        ((R.breaks (u ++ c :: rest)).take u.length) :=
      hR.moreEnds_breaks (List.cons_ne_nil _ _)
    have hlast : u.length < (R.breaks (u ++ c :: rest)).length := by
      rw [hR.length_breaks, List.length_append, List.length_cons]
      omega
    rw [List.concat_eq_append, List.append_assoc, List.singleton_append,
      List.map_append, List.map_singleton, List.length_append, List.length_singleton,
      List.take_succ_eq_append_getElem hlast]
    exact placeAfter_concat_eq_iff hmore

/-- **Where a report and a position agree.** A report that looks for a place at an
index at or after its own finds the counted place exactly if it looks at the index
of the place, and sees the same lines before it. -/
theorem place_eq_iff {x : Nat} (hx : before.length ≤ x)
    (hle : x ≤ (before ++ rest).length) :
    placeAfter ((R.breaks (before ++ rest)).take x) =
        placeAfter (before.map (· == '\n')) ↔
      x = before.length ∧ R.SameLines before rest := by
  rw [eq_comm]
  rcases Nat.eq_or_lt_of_le hx with rfl | hlt
  · rw [hR.placeAfter_eq_iff_sameLines]
    exact (and_iff_right rfl).symm
  · refine iff_of_false ?_ fun h => absurd h.1 (Nat.ne_of_gt hlt)
    have hrest : rest ≠ [] := by
      rintro rfl
      rw [List.append_nil] at hle
      omega
    have hsplit : (R.breaks (before ++ rest)).take x =
        (R.breaks (before ++ rest)).take before.length ++
          ((R.breaks (before ++ rest)).drop before.length).take
            (x - before.length) := by
      rw [← List.take_add, Nat.add_sub_cancel' hx]
    rw [hsplit]
    refine placeAfter_append_ne (hR.moreEnds_breaks hrest) ?_
    rw [Ne, List.take_eq_nil_iff, List.drop_eq_nil_iff, hR.length_breaks]
    omega

end Renderer.CountsCharacters

end Report

end Descent
