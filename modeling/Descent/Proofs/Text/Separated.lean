/-!
# Texts that end at a sign

What is written one after the other can be told apart where each piece ends at a sign
that is not in it: texts before a sign (`append_cons_inj`), numbers before anything
that is no digit (`toString_append_inj`), and lines (`join_lines_inj`).
-/

namespace Descent

/-- A text without a sign is read to its end, and on to the sign after it. -/
theorem takeWhile_append {c : Char} {xs : List Char} (hx : c ∉ xs) (us : List Char) :
    (xs ++ us).takeWhile (· != c) = xs ++ us.takeWhile (· != c) :=
  List.takeWhile_append_of_pos fun d hd => by
    simpa using fun heq : d = c => hx (heq ▸ hd)

/-- What stands before a sign is what is read until the sign. -/
theorem takeWhile_append_cons {c : Char} {xs : List Char} (hx : c ∉ xs)
    (us : List Char) : (xs ++ c :: us).takeWhile (· != c) = xs := by
  rw [takeWhile_append hx, List.takeWhile_cons_of_neg (by simp), List.append_nil]

/-- Two texts before a sign that is in neither are equal if the texts with the sign
are, and so is what follows. -/
theorem append_cons_inj {c : Char} {xs ys us vs : List Char} (hx : c ∉ xs)
    (hy : c ∉ ys) (h : xs ++ c :: us = ys ++ c :: vs) : xs = ys ∧ us = vs := by
  obtain rfl : xs = ys := by
    rw [← takeWhile_append_cons hx us, h, takeWhile_append_cons hy]
  exact ⟨rfl, (List.cons.injEq .. ▸ List.append_cancel_left h).2⟩

/-- A number is written in digits. -/
theorem not_mem_toString {n : Nat} {c : Char} (hc : c.isDigit = false) :
    c ∉ (toString n).toList := by
  intro h
  rw [Nat.toString_eq_ofList_toDigits, String.toList_ofList] at h
  have hdigit := Nat.isDigit_of_mem_toDigits (by decide) (by decide) h
  rw [hc] at hdigit
  cases hdigit

/-- A number can be read off what is written. -/
theorem toString_append_inj {m n : Nat} {c : Char} {us vs : List Char}
    (hc : c.isDigit = false)
    (h : (toString m).toList ++ c :: us = (toString n).toList ++ c :: vs) :
    m = n ∧ us = vs := by
  obtain ⟨heq, hrest⟩ := append_cons_inj (not_mem_toString hc) (not_mem_toString hc) h
  refine ⟨?_, hrest⟩
  simpa [Nat.toString_eq_ofList_toDigits, Nat.ofDigitChars_toDigits] using
    congrArg (Nat.ofDigitChars 10 · 0) heq

/-- **Lines can be told apart** in a text in which each of them is ended. -/
theorem join_lines_inj {ls ls' : List String} (h : ∀ l ∈ ls, '\n' ∉ l.toList)
    (h' : ∀ l ∈ ls', '\n' ∉ l.toList)
    (heq : String.join (ls.map (· ++ "\n")) = String.join (ls'.map (· ++ "\n"))) :
    ls = ls' := by
  induction ls generalizing ls' with
  | nil =>
    cases ls' with
    | nil => rfl
    | cons l' ls' =>
      have hempty := heq.symm
      simp [String.join_cons] at hempty
  | cons l ls ih =>
    cases ls' with
    | nil => simp [String.join_cons] at heq
    | cons l' ls' =>
      obtain ⟨hl, hls⟩ := List.forall_mem_cons.mp h
      obtain ⟨hl', hls'⟩ := List.forall_mem_cons.mp h'
      rw [List.map_cons, String.join_cons, List.map_cons, String.join_cons,
        ← String.toList_inj] at heq
      simp only [String.toList_append, List.append_assoc] at heq
      obtain ⟨hline, hrest⟩ := append_cons_inj hl hl' heq
      rw [String.toList_inj.mp hline, ih hls hls' (String.toList_inj.mp hrest)]

end Descent
