import Descent.Proofs.Lexical.Places
import Descent.Proofs.Diagnostic.Lines
import Mathlib.Data.List.DropRight

/-!
# What a position counts

A position is three numbers about the text before it: one more than its line feeds,
one more than its characters after the last line feed, and its bytes
(`Position.Counts`). Advancing keeps to that as long as the numbers fit their words
(`Position.counts_of_advance`).

Where they do not fit, a line or a column is a fault and an offset stays at the
largest word. The offset may also be added for a whole text at once
(`Position.advance_eq_advanceAtOnce`): what is lost by staying at the largest word
does not depend on the steps in which it is reached. So the law for two pieces
(`Position.advance_append`) holds of both ways to count, with or without room.
-/

namespace Descent

namespace Report

/-- The column is the number of characters since the last that ends a line, and
one. -/
theorem snd_placeAfter (ends : List Bool) :
    (placeAfter ends).2 = (ends.rtakeWhile (! ·)).length + 1 := by
  induction ends using List.reverseRecOn with
  | nil => rfl
  | append_singleton ends e ih =>
    rw [placeAfter_concat, List.rtakeWhile_concat]
    cases e with
    | true => rfl
    | false => simp [ih]

end Report

namespace Position

variable {p : Position}

/-! ## Lines, columns and bytes -/

/-- **A position counts the text before it.** -/
structure Counts (p : Position) (before : String) : Prop where
  /-- The line is the number of line feeds, and one. -/
  line : p.line.toNat = before.toList.count '\n' + 1
  /-- The column is the number of characters after the last line feed, and one. -/
  column : p.column.toNat = (before.toList.rtakeWhile (· != '\n')).length + 1
  /-- The offset is the number of bytes. -/
  offset : p.offset.toNat = before.utf8ByteSize

theorem length_rtakeWhile_map (cs : List Char) :
    ((cs.map (· == '\n')).rtakeWhile (! ·)).length =
      (cs.rtakeWhile (· != '\n')).length := by
  simp only [List.rtakeWhile, List.length_reverse, ← List.map_reverse,
    List.takeWhile_map, List.length_map]
  rfl

/-- **What is reached over a text counts it**, if the text is not too long. -/
theorem counts_of_advance {text : String} (h : start.advance text = .ok p)
    (hfits : text.utf8ByteSize + 1 < UInt32.size) : p.Counts text := by
  have hplace := place_of_advance h
  refine ⟨?_, ?_, (within_of_advance h hfits).offset⟩
  · have hline : p.line.toNat = _ := congrArg Prod.fst hplace
    rw [hline, Report.placeAfter, Report.fst_foldl_step, List.count, List.countP_map,
      List.count, Nat.add_comm]
    congr 2
    funext c
    simp
  · have hcolumn : p.column.toNat = _ := congrArg Prod.snd hplace
    rw [hcolumn, Report.snd_placeAfter, length_rtakeWhile_map]

/-! ## The offset at once -/

theorem saturate_congr {m n : Nat}
    (h : min m (UInt32.size - 1) = min n (UInt32.size - 1)) :
    saturate m = saturate n := by
  rw [saturate, h, saturate]

/-- The largest word is kept by what is added to it. -/
theorem saturate_toNat_saturate_add (m n : Nat) :
    saturate ((saturate m).toNat + n) = saturate (m + n) := by
  rw [toNat_saturate_eq_min]
  exact saturate_congr (by omega)

theorem saturate_add_toNat_saturate (m n : Nat) :
    saturate (m + (saturate n).toNat) = saturate (m + n) := by
  rw [toNat_saturate_eq_min]
  exact saturate_congr (by omega)

theorem saturate_toNat (n : UInt32) : saturate n.toNat = n := by
  have hlt : n.toNat < UInt32.size := n.toNat_lt
  rw [saturate, Nat.min_eq_left (by omega), UInt32.ofNat_toNat]

/-- The line and the column after one character. -/
def nextPlace (place : UInt32 × UInt32) (c : Char) :
    Except Fault (UInt32 × UInt32) := do
  if c = '\n' then return (← increment place.1, 1)
  else return (place.1, ← increment place.2)

/-- **The place after a text**, with lines and columns counted by characters and the
offset added at once. -/
def advanceAtOnce (p : Position) (text : String) : Except Fault Position := do
  let (line, column) ← text.toList.foldlM nextPlace (p.line, p.column)
  return ⟨line, column, saturate (p.offset.toNat + (saturate text.utf8ByteSize).toNat)⟩

theorem next_eq (p : Position) (c : Char) :
    p.next c = (nextPlace (p.line, p.column) c).map fun place =>
      ⟨place.1, place.2, saturate (p.offset.toNat + c.utf8Size)⟩ := by
  unfold next nextPlace
  split
  · cases increment p.line <;> rfl
  · cases increment p.column <;> rfl

theorem advanceChars_eq (p : Position) (cs : List Char) :
    p.advanceChars cs = (cs.foldlM nextPlace (p.line, p.column)).map fun place =>
      ⟨place.1, place.2,
        saturate (p.offset.toNat + (String.ofList cs).utf8ByteSize)⟩ := by
  induction cs generalizing p with
  | nil =>
    show Except.ok p = Except.ok _
    simp [saturate_toNat]
  | cons c cs ih =>
    rw [advanceChars_cons, next_eq, List.foldlM_cons, utf8ByteSize_ofList_cons]
    cases nextPlace (p.line, p.column) c with
    | error fault => rfl
    | ok place =>
      simp only [Except.map, Except.bind, bind, ih, saturate_toNat_saturate_add,
        Nat.add_assoc]

/-- An offset grows by the bytes of the text. -/
theorem offset_of_advance {q : Position} {text : String} (h : p.advance text = .ok q) :
    q.offset = saturate (p.offset.toNat + text.utf8ByteSize) := by
  rw [advance, advanceChars_eq, String.ofList_toList] at h
  cases hplace : text.toList.foldlM nextPlace (p.line, p.column) with
  | error fault =>
    rw [hplace] at h
    cases h
  | ok place =>
    rw [hplace] at h
    obtain rfl := Except.ok.inj h
    rfl

/-- **The offset may be added at once**, also where it stays at the largest word and
also where a line or a column has no room. -/
theorem advance_eq_advanceAtOnce (p : Position) (text : String) :
    p.advance text = p.advanceAtOnce text := by
  rw [advance, advanceChars_eq, advanceAtOnce, String.ofList_toList,
    saturate_add_toNat_saturate]
  cases text.toList.foldlM nextPlace (p.line, p.column) <;> rfl

end Position

end Descent
