/-!
# Lexical patterns

A pattern describes the texts that one lexical rule reads. Three forms are
enough for the languages at hand: a fixed word, a first character followed by
as many characters of a class as there are, and a text between two fences.

For each form `Pattern.length?` gives the length of the longest text that the
pattern reads at the head of the input.
-/

namespace Descent

/-- **The texts of one lexical rule.** -/
inductive Pattern where
  /-- This word and no other. -/
  | word (text : List Char)
  /-- A first character, then all that follow of a class. -/
  | run (first more : Char → Bool)
  /-- A character, anything else, and the same character again. -/
  | fenced (fence : Char)

namespace Pattern

/-- The length of the longest text the pattern reads at the head of the
input. -/
def length? : Pattern → List Char → Option Nat
  | _, [] => none
  | word text, cs => if text.isPrefixOf cs then some text.length else none
  | run first more, c :: cs =>
    if first c then some ((cs.takeWhile more).length + 1) else none
  | fenced fence, c :: cs =>
    let inner := cs.takeWhile (· != fence)
    if c = fence ∧ inner.length < cs.length then some (inner.length + 2)
    else none

/-- Whether the input begins with a fence that is never closed. -/
def isUnclosed : Pattern → List Char → Bool
  | fenced fence, c :: cs => c = fence && !cs.contains fence
  | _, _ => false

/-- **A pattern reads no more than there is.** -/
theorem length?_le {p : Pattern} {cs : List Char} {n : Nat}
    (h : p.length? cs = some n) : n ≤ cs.length := by
  cases cs with
  | nil => cases p <;> simp [length?] at h
  | cons c cs =>
    cases p with
    | word text =>
      simp only [length?, Option.ite_none_right_eq_some, Option.some.injEq,
        List.isPrefixOf_iff_prefix] at h
      obtain ⟨hp, rfl⟩ := h
      exact hp.length_le
    | run first more =>
      simp only [length?, Option.ite_none_right_eq_some, Option.some.injEq] at h
      obtain ⟨_, rfl⟩ := h
      have := (List.takeWhile_prefix (l := cs) more).length_le
      simp only [List.length_cons]; omega
    | fenced fence =>
      simp only [length?, Option.ite_none_right_eq_some, Option.some.injEq] at h
      obtain ⟨⟨_, hlt⟩, rfl⟩ := h
      simp only [List.length_cons]; omega

end Pattern

end Descent
