import Mathlib.Data.List.Basic

/-!
# First occurrences

What is left of a list when repetitions are dropped stands in the order of first
occurrence. The same holds of what is drawn from a list and then rid of
repetitions, provided that what is drawn tells what it was drawn from
(`pairwise_eraseDups_filterMap`).
-/

namespace Descent

variable {β γ : Type} [BEq β] [LawfulBEq β] [BEq γ] [LawfulBEq γ]

/-- **Of several equals the first is kept**: what is drawn from a list, without
repetitions, is in the order of first occurrence in the list. -/
theorem pairwise_eraseDups_filterMap (l : List β) (g : β → Option γ) (u : γ → β)
    (hu : ∀ b c, g b = some c → u c = b) :
    ((l.filterMap g).eraseDups).Pairwise fun c d => l.idxOf (u c) < l.idxOf (u d) := by
  induction l generalizing g with
  | nil => exact .nil
  | cons b l ih =>
    -- what is not drawn from the head stands in the tail
    have hshift (q : β → Option γ) (hq : ∀ b c, q b = some c → u c = b)
        (hb : q b = none) :
        ((l.filterMap q).eraseDups).Pairwise fun c d =>
          (b :: l).idxOf (u c) < (b :: l).idxOf (u d) := by
      refine (ih q hq).imp_of_mem fun {c d} hc hd hlt => ?_
      have hne {e : γ} (he : e ∈ (l.filterMap q).eraseDups) : b ≠ u e := by
        obtain ⟨b', _, he⟩ := List.mem_filterMap.mp (List.mem_eraseDups.mp he)
        rintro rfl
        rw [hq b' e he, he] at hb
        cases hb
      rw [List.idxOf_cons_ne l (hne hc), List.idxOf_cons_ne l (hne hd)]
      exact Nat.succ_lt_succ hlt
    cases hg : g b with
    | none => simpa [hg] using hshift g hu hg
    | some c =>
      rw [List.filterMap_cons_some hg, List.eraseDups_cons, List.filter_filterMap]
      have hq : ∀ b' d, (g b').filter (fun x => !x == c) = some d → u d = b' :=
        fun b' d h => hu b' d (Option.filter_eq_some_iff.mp h).1
      refine List.pairwise_cons.mpr ⟨fun d hd => ?_, hshift _ hq (by simp [hg])⟩
      obtain ⟨b', _, hd⟩ := List.mem_filterMap.mp (List.mem_eraseDups.mp hd)
      obtain ⟨hd, hne⟩ := Option.filter_eq_some_iff.mp hd
      have hbd : b ≠ u d := by
        rintro rfl
        rw [hu b' d hd, hd] at hg
        obtain rfl := Option.some.inj hg
        simp at hne
      rw [hu b c hg, List.idxOf_cons_self, List.idxOf_cons_ne l hbd]
      exact Nat.succ_pos _

/-- What is kept of a list is in the order of first occurrence. -/
theorem pairwise_eraseDups_filter (l : List β) (p : β → Bool) :
    ((l.filter p).eraseDups).Pairwise fun a b => l.idxOf a < l.idxOf b := by
  rw [← List.filterMap_eq_filter]
  exact pairwise_eraseDups_filterMap l _ id fun b c h => by
    simpa using (Option.guard_eq_some_iff.mp h).1.symm

theorem nodup_eraseDups (l : List β) : l.eraseDups.Nodup := by
  have h := pairwise_eraseDups_filter l fun _ => true
  rw [List.filter_eq_self.mpr fun _ _ => rfl] at h
  exact h.imp fun hlt heq => by simp [heq] at hlt

/-- What stands at the end of a list is kept if it stands nowhere before. -/
theorem eraseDups_concat (xs : List β) (x : β) :
    (xs ++ [x]).eraseDups =
      if x ∈ xs.eraseDups then xs.eraseDups else xs.eraseDups ++ [x] := by
  rw [List.eraseDups_append]
  by_cases h : x ∈ xs.eraseDups
  · have h' := List.mem_eraseDups.mp h
    rw [if_pos h, List.removeAll, List.filter_cons_of_neg (by simpa using h')]
    simp
  · have h' := fun hmem => h (List.mem_eraseDups.mpr hmem)
    rw [if_neg h, List.removeAll, List.filter_cons_of_pos (by simpa using h')]
    simp [List.eraseDups_cons]

end Descent
