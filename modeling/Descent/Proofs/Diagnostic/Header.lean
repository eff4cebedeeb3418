import Descent.Proofs.Diagnostic.Lines
import Descent.Proofs.Lexical.Places

/-!
# What a report says of a place

A report shows a line and a column in its head and puts its label under a text
(`Report.Drawing`). It is given a range of bytes, and the renderer reads it as a
range of characters. So it says of a piece of the source what the position of the
piece says if both readings agree up to the end of the piece, which they do exactly
if all characters so far are of one byte, and if the renderer sees the same lines
before the piece (`CountsCharacters.tells_iff`).
-/

namespace Descent

namespace Report

/-! ## Bytes and characters -/

/-- No text has more characters than bytes. -/
theorem length_le_utf8ByteSize (cs : List Char) :
    cs.length ≤ (String.ofList cs).utf8ByteSize := by
  induction cs with
  | nil => exact Nat.le_refl 0
  | cons c cs ih =>
    rw [Position.utf8ByteSize_ofList_cons, List.length_cons]
    have := c.utf8Size_pos
    omega

/-- **A text has as many characters as bytes** exactly if each is of one byte. -/
theorem length_eq_utf8ByteSize_iff {cs : List Char} :
    cs.length = (String.ofList cs).utf8ByteSize ↔ ∀ c ∈ cs, c.utf8Size = 1 := by
  induction cs with
  | nil => simp
  | cons c cs ih =>
    have hpos := c.utf8Size_pos
    have hle := length_le_utf8ByteSize cs
    rw [Position.utf8ByteSize_ofList_cons, List.length_cons, List.forall_mem_cons,
      ← ih]
    omega

/-- A text begins and ends with texts of one-byte characters up to the end of its
second part exactly if both have as many characters as bytes. -/
theorem forall_utf8Size_eq_one_iff {before piece : String} :
    (∀ c ∈ (before ++ piece).toList, c.utf8Size = 1) ↔
      before.toList.length = before.utf8ByteSize ∧
        piece.toList.length = piece.utf8ByteSize := by
  rw [String.toList_append, List.forall_mem_append, ← length_eq_utf8ByteSize_iff,
    ← length_eq_utf8ByteSize_iff, String.ofList_toList, String.ofList_toList]

/-! ## What a report says of a piece -/

variable {q : Request} {source before piece after : String} {R : Renderer}

/-- **The bytes of a piece of a source are handed on as they are.** -/
theorem notice_eq (hsource : source = before ++ piece ++ after)
    (hstart : q.start = before.utf8ByteSize)
    (hstop : q.stop = before.utf8ByteSize + piece.utf8ByteSize) :
    (q.notice source).start = before.utf8ByteSize ∧
      (q.notice source).stop = before.utf8ByteSize + piece.utf8ByteSize := by
  have hsize := congrArg String.utf8ByteSize hsource
  rw [String.utf8ByteSize_append, String.utf8ByteSize_append] at hsize
  show min q.start (min q.stop source.utf8ByteSize) = _ ∧
    min q.stop source.utf8ByteSize = _
  omega

/-- A report that shows a place was drawn. -/
theorem exists_draw_of_place {p : Nat × Nat}
    (h : (drawing R q source).place = some p) :
    ∃ d, R.draw (q.notice source) source = some d ∧ drawing R q source = d := by
  unfold drawing at *
  cases hdraw : R.draw (q.notice source) source with
  | none =>
    rw [hdraw] at h
    cases h
  | some d => exact ⟨d, rfl, rfl⟩

namespace Renderer.CountsCharacters

variable (hR : R.CountsCharacters) (hsource : source = before ++ piece ++ after)
  (hstart : q.start = before.utf8ByteSize)
  (hstop : q.stop = before.utf8ByteSize + piece.utf8ByteSize)

include hR hsource hstart hstop

/-- **A report of bytes shows the place of the piece that they are** exactly if all
characters before the piece are of one byte, and the renderer sees the same lines
before it as a position. -/
theorem place_iff (hplace : (drawing R q source).place.isSome) :
    (drawing R q source).place =
        some (placeAfter (before.toList.map (· == '\n'))) ↔
      before.toList.length = before.utf8ByteSize ∧
        R.SameLines before.toList (piece ++ after).toList := by
  obtain ⟨p, hp⟩ := Option.isSome_iff_exists.mp hplace
  obtain ⟨d, hdraw, hd⟩ := exists_draw_of_place hp
  rw [hd] at hp ⊢
  obtain ⟨hle, rfl⟩ := hR.place_eq hdraw hp
  have hlist : source.toList = before.toList ++ (piece ++ after).toList := by
    rw [hsource, String.append_assoc, String.toList_append]
  have hbytes : before.toList.length ≤ before.utf8ByteSize := by
    simpa using length_le_utf8ByteSize before.toList
  rw [(notice_eq hsource hstart hstop).1, hlist] at hle
  rw [hp, Option.some.injEq, (notice_eq hsource hstart hstop).1, hlist,
    hR.place_eq_iff hbytes hle, eq_comm (a := before.utf8ByteSize)]

/-- **A report of bytes covers the piece that they are**, from an index that is the
index of the piece, exactly if the piece has as many characters as bytes. -/
theorem covered_eq_iff (hplace : (drawing R q source).place.isSome)
    (hbefore : before.toList.length = before.utf8ByteSize) :
    (drawing R q source).covered = some piece ↔
      piece.toList.length = piece.utf8ByteSize := by
  obtain ⟨p, hp⟩ := Option.isSome_iff_exists.mp hplace
  obtain ⟨d, hdraw, hd⟩ := exists_draw_of_place hp
  rw [hd] at hplace ⊢
  obtain ⟨hnotice, hnotice'⟩ := notice_eq hsource hstart hstop
  rw [hR.covered_iff hdraw hplace, hnotice, hnotice']
  constructor
  · rintro ⟨before', after', -, hlength, hlength'⟩
    rw [String.toList_append, List.length_append] at hlength'
    omega
  · intro hpiece
    refine ⟨before, after, hsource, hbefore, ?_⟩
    rw [String.toList_append, List.length_append, hbefore, hpiece]

/-- **A report of bytes tells of the piece that they are**, with its place and its
text, exactly if it shows a place, all characters up to the end of the piece are of
one byte, and the renderer sees the same lines before the piece as a position. -/
theorem tells_iff :
    (drawing R q source).place =
          some (placeAfter (before.toList.map (· == '\n'))) ∧
        (drawing R q source).covered = some piece ↔
      (drawing R q source).place.isSome ∧
        (∀ c ∈ (before ++ piece).toList, c.utf8Size = 1) ∧
        R.SameLines before.toList (piece ++ after).toList := by
  rw [forall_utf8Size_eq_one_iff]
  constructor
  · rintro ⟨hplace, hcovered⟩
    have hsome := Option.isSome_of_eq_some hplace
    obtain ⟨hbefore, hsame⟩ := (hR.place_iff hsource hstart hstop hsome).mp hplace
    exact ⟨hsome,
      ⟨hbefore, (hR.covered_eq_iff hsource hstart hstop hsome hbefore).mp hcovered⟩,
      hsame⟩
  · rintro ⟨hsome, ⟨hbefore, hpiece⟩, hsame⟩
    exact ⟨(hR.place_iff hsource hstart hstop hsome).mpr ⟨hbefore, hsame⟩,
      (hR.covered_eq_iff hsource hstart hstop hsome hbefore).mpr hpiece⟩

/-- **Where the bytes are as many as the characters, a report shows a place**, in a
source that is not empty. -/
theorem isSome_place (hne : source ≠ "")
    (hchars : ∀ c ∈ (before ++ piece).toList, c.utf8Size = 1) :
    (drawing R q source).place.isSome := by
  obtain ⟨hbefore, hpiece⟩ := forall_utf8Size_eq_one_iff.mp hchars
  have hlength := congrArg (fun s => s.toList.length) hsource
  simp only [String.toList_append, List.length_append] at hlength
  obtain ⟨d, hdraw, hplace⟩ := hR.drawn (n := q.notice source) hne (by
    rw [(notice_eq hsource hstart hstop).2]
    omega)
  rw [drawing, hdraw]
  exact hplace

end Renderer.CountsCharacters

end Report

end Descent
