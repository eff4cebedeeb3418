import Descent.Text.Quoted
import Mathlib.Tactic.SplitIfs

/-!
# Quoted texts can be read back

What stands for a character inside quotes can be told from what follows it, and read
back (`readEscaped_escapeChar`). No character is written as a plain quote, so a quoted
text ends at the first one, and two texts that begin with a quoted text begin with
quotes of the same one (`quoted_append_inj`). A quoted text stands on one line
(`newline_not_mem_quoted`).
-/

namespace Descent

/-! ## Hexadecimal digits -/

/-- The value of a hexadecimal digit. -/
def hexValue (c : Char) : Nat :=
  if c.isDigit then c.toNat - '0'.toNat else c.toNat - 'a'.toNat + 10

/-- The number that hexadecimal digits stand for. -/
def readHex (cs : List Char) : Nat := cs.foldl (fun n c => 16 * n + hexValue c) 0

theorem hexValue_digitChar {d : Nat} (hd : d < 16) : hexValue d.digitChar = d := by
  revert d
  decide

/-- The digits of a number are those of its sixteenth and one more. -/
theorem hexDigits_eq (n : Nat) :
    hexDigits n = if n < 16 then [n.digitChar]
      else hexDigits (n / 16) ++ [(n % 16).digitChar] :=
  Nat.toDigits_eq_if (by decide)

theorem readHex_hexDigits (n : Nat) : readHex (hexDigits n) = n := by
  induction n using Nat.strongRecOn with
  | _ n ih =>
    rw [hexDigits_eq]
    split
    · next hn => simp [readHex, hexValue_digitChar hn]
    · have hrest := ih (n / 16) (by omega)
      rw [readHex] at hrest
      rw [readHex, List.foldl_append, hrest, List.foldl_cons, List.foldl_nil,
        hexValue_digitChar (Nat.mod_lt n (by decide)), Nat.div_add_mod]

/-- The digits of a number are the hexadecimal ones. -/
theorem not_mem_hexDigits {c : Char} (hc : ∀ d < 16, Nat.digitChar d ≠ c) (n : Nat) :
    c ∉ hexDigits n := by
  induction n using Nat.strongRecOn with
  | _ n ih =>
    intro h
    rw [hexDigits_eq] at h
    split at h
    · next hn => exact hc n hn (List.mem_singleton.mp h).symm
    · rcases List.mem_append.mp h with h | h
      · exact ih (n / 16) (by omega) h
      · exact hc (n % 16) (Nat.mod_lt n (by decide)) (List.mem_singleton.mp h).symm

/-! ## One character -/

/-- What the letters after a backslash stand for. -/
def escapeLetters : List (Char × Char) :=
  [('"', '"'), ('\\', '\\'), ('n', '\n'), ('r', '\r'), ('t', '\t'), ('0', '\x00')]

/-- **The first character of a text inside quotes**, and what follows it. There is
none where the text ends. -/
def readEscaped : List Char → Option (Char × List Char)
  | [] => none
  | c :: cs =>
    if c = '"' then none
    else if c = '\\' then
      match cs with
      | [] => none
      | letter :: rest =>
        if letter = 'u' then
          some (.ofNat (readHex ((rest.drop 1).takeWhile (· != '\x7d'))),
            ((rest.drop 1).dropWhile (· != '\x7d')).drop 1)
        else (escapeLetters.lookup letter).map (·, rest)
    else some (c, cs)

/-- **A character is read back**, whatever follows it. -/
theorem readEscaped_escapeChar (c : Char) (rest : List Char) :
    readEscaped (escapeChar c ++ rest) = some (c, rest) := by
  have hbrace : ∀ x ∈ hexDigits c.toNat, (x != '\x7d') = true := by
    intro x hx
    refine bne_iff_ne.mpr ?_
    rintro rfl
    exact not_mem_hexDigits (by decide) _ hx
  unfold escapeChar
  split_ifs with hquote hback hn hr ht hzero hex
  · rw [hquote]; rfl
  · rw [hback]; rfl
  · rw [hn]; rfl
  · rw [hr]; rfl
  · rw [ht]; rfl
  · rw [hzero]; rfl
  · have htake : (hexDigits c.toNat ++ '\x7d' :: rest).takeWhile (· != '\x7d') =
        hexDigits c.toNat := by
      rw [List.takeWhile_append_of_pos hbrace]
      simp
    have hdrop : (hexDigits c.toNat ++ '\x7d' :: rest).dropWhile (· != '\x7d') =
        '\x7d' :: rest := by
      rw [List.dropWhile_append_of_pos hbrace]
      simp
    simp [readEscaped, htake, hdrop, readHex_hexDigits]
  · simp [readEscaped, hquote, hback]

/-- No character is written with a line end. -/
theorem newline_not_mem_escapeChar (c : Char) : '\n' ∉ escapeChar c := by
  unfold escapeChar
  split_ifs with hquote hback hn hr ht hzero hex
  · decide
  · decide
  · decide
  · decide
  · decide
  · decide
  · intro h
    simp only [List.mem_append, List.mem_cons, List.not_mem_nil, or_false] at h
    rcases h with (h | h) | h
    · revert h; decide
    · exact not_mem_hexDigits (by decide) _ h
    · revert h; decide
  · exact fun h => hn (List.mem_singleton.mp h).symm

/-! ## Texts -/

/-- **What stands inside quotes is read back up to the closing quote.** -/
theorem escapeChars_append_inj {cs ds us vs : List Char}
    (h : escapeChars cs ++ '"' :: us = escapeChars ds ++ '"' :: vs) :
    cs = ds ∧ us = vs := by
  induction cs generalizing ds with
  | nil =>
    cases ds with
    | nil => exact ⟨rfl, (List.cons.inj h).2⟩
    | cons d ds =>
      have hread := congrArg readEscaped h
      rw [escapeChars_cons, List.append_assoc, readEscaped_escapeChar] at hread
      cases hread
  | cons c cs ih =>
    have hread := congrArg readEscaped h
    rw [escapeChars_cons, List.append_assoc, readEscaped_escapeChar] at hread
    cases ds with
    | nil => cases hread
    | cons d ds =>
      rw [escapeChars_cons, List.append_assoc, readEscaped_escapeChar] at hread
      obtain ⟨rfl, hrest⟩ := Prod.mk.inj (Option.some.inj hread)
      obtain ⟨rfl, hus⟩ := ih hrest
      exact ⟨rfl, hus⟩

/-- **A quoted text is read back**, whatever follows it. -/
theorem quoted_append_inj {a b : String} {us vs : List Char}
    (h : (quoted a).toList ++ us = (quoted b).toList ++ vs) : a = b ∧ us = vs := by
  simp only [quoted, String.toList_ofList, List.append_assoc, List.cons_append] at h
  obtain ⟨hchars, hrest⟩ := escapeChars_append_inj (List.cons.inj h).2
  exact ⟨String.toList_inj.mp hchars, hrest⟩

/-- A quoted text stands on one line. -/
theorem newline_not_mem_quoted (a : String) : '\n' ∉ (quoted a).toList := by
  simp only [quoted, String.toList_ofList, escapeChars, List.cons_append,
    List.mem_cons, List.mem_append, List.mem_flatMap, List.not_mem_nil, or_false]
  rintro (h | ⟨c, -, h⟩ | h)
  · revert h; decide
  · exact newline_not_mem_escapeChar c h
  · revert h; decide

end Descent
