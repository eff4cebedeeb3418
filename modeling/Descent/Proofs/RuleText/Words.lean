import Descent.Proofs.Lexical.Words
import Descent.RuleText.Kind

/-!
# The words of rule texts

Rule texts are cut into words by longest reading. A name goes as far as the
characters of names go; every sign is a word by itself, whatever follows; a blank
before anything else than a blank is skipped. So a rule text that is put together
from names, signs and single blanks is cut into what it was put together from, as
long as no name stands right before another.

Conversely every identifier in a rule text is a name (`RuleText.isName_of_cuts`).
-/

namespace Descent.RuleText

/-- **A name**: a letter or an underscore, and then letters, digits and
underscores. -/
def IsName (s : String) : Prop :=
  ∃ c cs, s.toList = c :: cs ∧ isNameStart c = true ∧
    ∀ x ∈ cs, isNamePart x = true

/-- **A text does not go on with a name**: its first character, if there is one,
belongs to no name. -/
def Ends (cs : List Char) : Prop := ∀ c, cs.head? = some c → isNamePart c = false

variable {c d : Char} {cs rest : List Char} {ws : List (RuleKind × String)}

theorem ends_cons (h : isNamePart c = false) : Ends (c :: cs) := by
  rintro _ ⟨⟩
  exact h

theorem ends_nil : Ends [] := fun _ h => by cases h

/-- A name begins with nothing that no name begins with. -/
theorem ne_of_isNameStart (h : isNameStart c = true) {x : Char}
    (hx : isNameStart x = false) : x ≠ c := by
  rintro rfl
  rw [h] at hx
  cases hx

theorem isGap_of_isNameStart (h : isNameStart c = true) : isGap c = false := by
  have hne {x : Char} (hx : isNameStart x = false) : (c == x) = false :=
    beq_false_of_ne (ne_of_isNameStart h hx).symm
  rw [isGap, hne rfl, hne rfl, hne rfl, hne rfl]
  rfl

theorem isDigit_of_isNameStart (h : isNameStart c = true) :
    isDigit c = false := by
  rw [Bool.eq_false_iff]
  intro hdigit
  simp only [isNameStart, isDigit, Bool.or_eq_true, Bool.and_eq_true,
    decide_eq_true_eq, beq_iff_eq, Char.le_def, UInt32.le_iff_toNat_le]
    at h hdigit
  have hnine : '9'.val.toNat = 57 := rfl
  have hA : 'A'.val.toNat = 65 := rfl
  have ha : 'a'.val.toNat = 97 := rfl
  rcases h with (h | h) | rfl
  · omega
  · omega
  · revert hdigit
    decide

theorem takeWhile_append_of_ends (h : ∀ x ∈ cs, isNamePart x = true)
    (hrest : Ends rest) : (cs ++ rest).takeWhile isNamePart = cs := by
  rw [List.takeWhile_append_of_pos h]
  cases rest with
  | nil => simp
  | cons d ds =>
    rw [List.takeWhile_cons_of_neg (by simp [hrest d rfl]), List.append_nil]

/-- The signs and words of rule texts begin with nothing that a name begins
with. -/
theorem exists_word_of_mem_lexicon :
    ∀ rule ∈ lexicon.drop 3,
      ∃ x xs, rule.pattern = .word (x :: xs) ∧ isNameStart x = false := by
  intro rule hrule
  simp only [lexicon, List.drop_succ_cons, List.drop_zero, List.mem_cons,
    List.not_mem_nil, or_false] at hrule
  rcases hrule with rfl | rfl | rfl | rfl | rfl | rfl | rfl | rfl | rfl | rfl |
    rfl | rfl | rfl | rfl <;> exact ⟨_, _, rfl, rfl⟩

/-- **A name is read as one identifier.** -/
theorem longest_name (hc : isNameStart c = true)
    (h : ∀ x ∈ cs, isNamePart x = true) (hrest : Ends rest) :
    lexicon.longest (c :: (cs ++ rest)) = (.token .ident, cs.length + 1) := by
  have hwords : Lexicon.candidates (lexicon.drop 3) (c :: (cs ++ rest)) = [] := by
    refine List.filterMap_eq_nil_iff.mpr fun rule hrule => ?_
    obtain ⟨x, xs, hpattern, hx⟩ := exists_word_of_mem_lexicon rule hrule
    simp [hpattern, Pattern.length?, ne_of_isNameStart hc hx]
  have hcandidates : lexicon.candidates (c :: (cs ++ rest)) =
      [(.token .ident, cs.length + 1)] := by
    rw [← List.take_append_drop 3 lexicon, Lexicon.candidates,
      List.filterMap_append]
    refine (congrArg _ hwords).trans ?_
    simp [lexicon, Pattern.length?, hc, isGap_of_isNameStart hc,
      isDigit_of_isNameStart hc, takeWhile_append_of_ends h hrest,
      Lexicon.readingOf]
  simp [Lexicon.longest, hcandidates, Lexicon.better]

/-- A name is cut off whole where the text does not go on with one. -/
theorem cuts_name {s : String} (hs : IsName s) (hrest : Ends rest)
    (h : lexicon.Cuts rest ws) :
    lexicon.Cuts (s.toList ++ rest) ((.ident, s) :: ws) := by
  obtain ⟨c, cs, hchars, hc, hcs⟩ := hs
  have hcut := h.token (longest_name hc hcs hrest)
  rwa [← hchars, String.ofList_toList, ← List.cons_append, ← hchars] at hcut

/-- A sign is cut off, whatever follows. -/
theorem cuts_sign {kind : RuleKind}
    (hsign : lexicon.longest (c :: rest) = (.token kind, 1))
    (h : lexicon.Cuts rest ws) :
    lexicon.Cuts (c :: rest) ((kind, String.ofList [c]) :: ws) := by
  have hread : lexicon.longest (c :: ([] ++ rest)) =
      (.token kind, 0 + 1) := hsign
  exact h.token hread

/-- The mark of discarded clauses is cut off, whatever follows. -/
theorem cuts_mark (h : lexicon.Cuts rest ws) :
    lexicon.Cuts ('[' :: 'd' :: ']' :: rest) ((.discard, "[d]") :: ws) := by
  have hread : lexicon.longest ('[' :: (['d', ']'] ++ rest)) =
      (.token .discard, 2 + 1) := rfl
  exact h.token hread

/-- A blank before anything else than a blank is skipped. -/
theorem cuts_blank (hd : isGap d = false) (h : lexicon.Cuts (d :: cs) ws) :
    lexicon.Cuts (' ' :: d :: cs) ws := by
  have hcandidates : lexicon.candidates (' ' :: d :: cs) = [(.skipped, 1)] := by
    have hwords : Lexicon.candidates (lexicon.drop 1) (' ' :: d :: cs) = [] := rfl
    rw [← List.take_append_drop 1 lexicon, Lexicon.candidates,
      List.filterMap_append]
    refine (congrArg _ hwords).trans ?_
    simp [lexicon, Pattern.length?, hd, Lexicon.readingOf,
      show isGap ' ' = true from rfl]
  have hread : lexicon.longest (' ' :: ([] ++ d :: cs)) =
      (.skipped, 0 + 1) := by
    simp [Lexicon.longest, hcandidates, Lexicon.better]
  exact h.skip hread

/-- **Every identifier is a name.** -/
theorem isName_of_cuts {s : String} (h : lexicon.Cuts cs ws)
    (hs : (.ident, s) ∈ ws) : IsName s := by
  obtain ⟨rule, hrule, hkind, ds, n, hlen, rfl⟩ := h.exists_rule hs
  obtain rfl : rule = ⟨.run isNameStart isNamePart, some .ident⟩ := by
    simp only [lexicon, word, List.mem_cons, List.not_mem_nil, or_false] at hrule
    rcases hrule with rfl | rfl | rfl | rfl | rfl | rfl | rfl | rfl | rfl | rfl |
      rfl | rfl | rfl | rfl | rfl | rfl | rfl <;> first | rfl | cases hkind
  cases ds with
  | nil => cases hlen
  | cons c ds =>
    rw [Pattern.length?] at hlen
    split at hlen
    · next hc =>
      obtain rfl := Option.some.inj hlen
      refine ⟨c, ds.takeWhile isNamePart, ?_, hc,
        List.all_eq_true.mp List.all_takeWhile⟩
      rw [String.toList_ofList, List.take_succ_cons,
        ← List.prefix_iff_eq_take.mp (List.takeWhile_prefix _)]
    · cases hlen

end Descent.RuleText
