import Descent.Matching.Run
import Descent.Proofs.List.FirstOccurrence

/-!
# What the furthest failure says of what it was told

The furthest failure is found event by event, and forgets most of what it is told:
what was expected is dropped whenever something fails further on. What it keeps is
nevertheless what the whole log of events says (`Furthest.Summarizes`). Its index
is the largest at which anything failed, and expected are the kinds that were wanted
at that index, each once and in the order in which they were first wanted there.

One event keeps that true (`Summarizes.note`), and so does every log
(`Furthest.summarizes_ofTrace`).
-/

namespace Descent

variable {K : Type}

namespace Event

/-- The index at which an event is a failure, if it is one. -/
def failure? : Event K → Option Nat
  | .expect i _ | .reach i => some i
  | .advance _ | .restore .. | .enter .. => none

/-- The kind that was wanted in an event, if the event is at the index given. -/
def wantedAt? (index : Option Nat) : Event K → Option K
  | .expect i k => if index = some i then some k else none
  | .advance _ | .restore .. | .reach _ | .enter .. => none

theorem wantedAt?_eq_some_iff {index : Option Nat} {e : Event K} {k : K} :
    e.wantedAt? index = some k ↔ ∃ i, index = some i ∧ e = .expect i k := by
  cases e with
  | expect i x =>
    simp only [wantedAt?, Event.expect.injEq]
    constructor
    · intro h
      split at h
      · next hi => exact ⟨i, hi, rfl, Option.some.inj h⟩
      · cases h
    · rintro ⟨_, hi, rfl, rfl⟩
      exact if_pos hi
  | advance _ | restore _ _ | reach _ | enter _ _ => simp [wantedAt?]

end Event

namespace Furthest

/-- A failure counts only if it is further on than all before. -/
theorem reach_cases (f : Furthest K) (i : Nat) :
    (∃ j, f.index = some j ∧ i ≤ j ∧ f.reach i = f) ∨
      (∀ j, f.index = some j → j < i) ∧ f.reach i = ⟨some i, []⟩ := by
  unfold reach
  cases h : f.index with
  | none => exact .inr ⟨by simp, rfl⟩
  | some j =>
    by_cases hle : i ≤ j
    · exact .inl ⟨j, rfl, hle, if_pos hle⟩
    · refine .inr ⟨fun j' hj => ?_, if_neg hle⟩
      rw [Option.some.injEq] at hj
      omega

/-- The largest of some numbers and one more. -/
theorem max?_concat (ns : List Nat) (n : Nat) :
    (ns ++ [n]).max? = some (ns.max?.elim n (max · n)) := by
  cases ns with
  | nil => rfl
  | cons m ns =>
    rw [List.cons_append, List.max?_cons', List.max?_cons', List.foldl_append]
    rfl

/-! ## The furthest failure never falls back -/

/-- **One failure is no further on than another**: where the one is, the other is
as well or is past it. -/
def NoFurther (f f' : Furthest K) : Prop :=
  ∀ i, f.index = some i → ∃ j, f'.index = some j ∧ i ≤ j

theorem NoFurther.refl (f : Furthest K) : f.NoFurther f :=
  fun i hi => ⟨i, hi, Nat.le_refl i⟩

theorem NoFurther.trans {f f' f'' : Furthest K} (h : f.NoFurther f')
    (h' : f'.NoFurther f'') : f.NoFurther f'' := by
  intro i hi
  obtain ⟨j, hj, hij⟩ := h i hi
  obtain ⟨k, hk, hjk⟩ := h' j hj
  exact ⟨k, hk, Nat.le_trans hij hjk⟩

theorem noFurther_reach (f : Furthest K) (i : Nat) : f.NoFurther (f.reach i) := by
  rcases reach_cases f i with ⟨_, _, _, hr⟩ | ⟨hlt, hr⟩
  · rw [hr]
    exact .refl f
  · rw [hr]
    exact fun j hj => ⟨i, rfl, Nat.le_of_lt (hlt j hj)⟩

variable [DecidableEq K]

/-- Whether a kind is expected somewhere does not change how far that is. -/
theorem index_expect (f : Furthest K) (i : Nat) (k : K) :
    (f.expect i k).index = (f.reach i).index := by
  unfold expect
  dsimp only
  split <;> rfl

/-- No event takes the furthest failure back. -/
theorem noFurther_note (f : Furthest K) (e : Event K) : f.NoFurther (f.note e) := by
  cases e with
  | advance _ | restore _ _ | enter _ _ => exact .refl f
  | reach i => exact noFurther_reach f i
  | expect i k =>
    rw [NoFurther, note, index_expect]
    exact noFurther_reach f i

/-- **The furthest failure never falls back** while a trace grows. -/
theorem noFurther_of_suffix {earlier later : List (Event K)} (h : earlier <:+ later) :
    (ofTrace earlier).NoFurther (ofTrace later) := by
  obtain ⟨more, rfl⟩ := h
  induction more with
  | nil => exact .refl _
  | cons e more ih => exact ih.trans (noFurther_note _ e)

/-! ## The furthest failure is the summary of the log -/

/-- **What a log says of its furthest failure**: the largest index at which an
event is a failure, and the kinds that were wanted there without repetitions. The
earliest event stands first. -/
structure Summarizes (f : Furthest K) (log : List (Event K)) : Prop where
  /-- The furthest failure is the last. -/
  index : f.index = (log.filterMap Event.failure?).max?
  /-- What was wanted there is expected, in the order of first mention. -/
  expected : f.expected = (log.filterMap (Event.wantedAt? f.index)).eraseDups

namespace Summarizes

variable {f : Furthest K} {log : List (Event K)}

/-- Nothing in the log is further on. -/
theorem le (h : f.Summarizes log) {e : Event K} (he : e ∈ log) {i : Nat}
    (hi : e.failure? = some i) : ∃ j, f.index = some j ∧ i ≤ j := by
  have hmem : i ∈ log.filterMap Event.failure? := List.mem_filterMap.mpr ⟨e, he, hi⟩
  cases hj : f.index with
  | none =>
    rw [h.index, List.max?_eq_none_iff] at hj
    rw [hj] at hmem
    cases hmem
  | some j =>
    rw [h.index, List.max?_eq_some_iff] at hj
    exact ⟨j, rfl, hj.2 i hmem⟩

theorem mem_expected (h : f.Summarizes log) (k : K) :
    k ∈ f.expected ↔ ∃ i, f.index = some i ∧ .expect i k ∈ log := by
  rw [h.expected, List.mem_eraseDups, List.mem_filterMap]
  constructor
  · rintro ⟨_, he, hk⟩
    obtain ⟨i, hi, rfl⟩ := Event.wantedAt?_eq_some_iff.mp hk
    exact ⟨i, hi, he⟩
  · rintro ⟨i, hi, he⟩
    exact ⟨_, he, Event.wantedAt?_eq_some_iff.mpr ⟨i, hi, rfl⟩⟩

/-- An event that is no failure changes nothing. -/
theorem concat (h : f.Summarizes log) {e : Event K} (he : e.failure? = none) :
    f.Summarizes (log ++ [e]) where
  index := by simpa [he] using h.index
  expected := by
    have hw : e.wantedAt? f.index = none := by
      cases e with
      | expect _ _ => cases he
      | advance _ | restore _ _ | reach _ | enter _ _ => rfl
    simpa [hw] using h.expected

theorem reach (h : f.Summarizes log) (i : Nat) :
    (f.reach i).Summarizes (log ++ [.reach i]) := by
  have hmax : ((log ++ [Event.reach i]).filterMap Event.failure?).max? =
      some (f.index.elim i (max · i)) := by
    rw [List.filterMap_append, h.index]
    exact max?_concat _ i
  have hwanted (index : Option Nat) :
      (log ++ [Event.reach i]).filterMap (Event.wantedAt? index) =
        log.filterMap (Event.wantedAt? index) := by
    simp [Event.wantedAt?]
  rcases reach_cases f i with ⟨j, hj, hle, hr⟩ | ⟨hlt, hr⟩
  · rw [hr]
    refine ⟨?_, by rw [hwanted]; exact h.expected⟩
    rw [hmax, hj]
    exact congrArg some (Nat.max_eq_left hle).symm
  · rw [hr]
    refine ⟨?_, ?_⟩
    · rw [hmax]
      cases hj : f.index with
      | none => rfl
      | some j => exact congrArg some (Nat.max_eq_right (Nat.le_of_lt (hlt j hj))).symm
    · -- nothing was wanted where nothing had failed
      have hnone : log.filterMap (Event.wantedAt? (some i)) = [] := by
        refine List.filterMap_eq_nil_iff.mpr fun e he => ?_
        refine Option.eq_none_iff_forall_ne_some.mpr fun k hk => ?_
        obtain ⟨_, hi, rfl⟩ := Event.wantedAt?_eq_some_iff.mp hk
        obtain ⟨j, hj, hle⟩ := h.le he rfl
        obtain rfl := Option.some.inj hi
        exact absurd (hlt j hj) (Nat.not_lt_of_le hle)
      rw [hwanted, hnone]
      rfl

/-- A kind that is wanted fails where nothing at all could be matched, and joins
the kinds expected there. -/
theorem expect (h : f.Summarizes log) (i : Nat) (k : K) :
    (f.expect i k).Summarizes (log ++ [.expect i k]) := by
  have hr := h.reach i
  have hindex : (f.expect i k).index = (f.reach i).index := index_expect f i k
  refine ⟨?_, ?_⟩
  · rw [hindex, hr.index]
    simp [Event.failure?]
  · have hexp := hr.expected
    rw [List.filterMap_append, show [Event.reach i].filterMap
      (Event.wantedAt? (K := K) (f.reach i).index) = [] from rfl,
      List.append_nil] at hexp
    rw [hindex, List.filterMap_append, Furthest.expect]
    by_cases hi : (f.reach i).index = some i
    · have hk : [Event.expect i k].filterMap (Event.wantedAt? (f.reach i).index) =
          [k] := by
        simp [Event.wantedAt?, hi]
      rw [hk, eraseDups_concat, ← hexp]
      by_cases hmem : k ∈ (f.reach i).expected
      · rw [if_pos hmem, if_neg fun h => h.2 hmem]
      · rw [if_neg hmem, if_pos ⟨hi, hmem⟩]
    · have hk : [Event.expect i k].filterMap (Event.wantedAt? (f.reach i).index) =
          [] := by
        simp [Event.wantedAt?, hi]
      rw [hk, List.append_nil, ← hexp, if_neg fun h => hi h.1]

/-- **One more event** keeps what is noted the summary of the log. -/
theorem note (h : f.Summarizes log) (e : Event K) :
    (f.note e).Summarizes (log ++ [e]) := by
  cases e with
  | advance _ | restore _ _ | enter _ _ => exact h.concat rfl
  | expect i k => exact h.expect i k
  | reach i => exact h.reach i

end Summarizes

/-- **What a trace leaves is the summary of its log.** -/
theorem summarizes_ofTrace (trace : List (Event K)) :
    (ofTrace trace).Summarizes trace.reverse := by
  induction trace with
  | nil => exact ⟨rfl, rfl⟩
  | cons e trace ih =>
    rw [ofTrace_cons, List.reverse_cons]
    exact ih.note e

/-- **The furthest failure refines its log.** Whatever is noted in whatever order,
beginning with nothing, the index is the largest at which anything failed, and there
is none if nothing did. Expected are the kinds wanted at that index, each once, in
the order in which they were first wanted there. -/
theorem note_exact (log : List (Event K)) :
    let f := log.foldl note nowhere
    f.index = (log.filterMap Event.failure?).max? ∧
      (∀ k, k ∈ f.expected ↔ ∃ i, f.index = some i ∧ .expect i k ∈ log) ∧
      f.expected.Nodup ∧
      ∀ i, f.index = some i → f.expected.Pairwise fun k k' =>
        log.idxOf (.expect i k) < log.idxOf (.expect i k') := by
  intro f
  have h : f.Summarizes log := by
    have htrace := summarizes_ofTrace log.reverse
    rw [ofTrace, List.foldr_reverse, List.reverse_reverse] at htrace
    exact htrace
  refine ⟨h.index, h.mem_expected, ?_, fun i hi => ?_⟩
  · rw [h.expected]
    exact nodup_eraseDups _
  · rw [h.expected, hi]
    refine pairwise_eraseDups_filterMap log _ (.expect i) fun e k hk => ?_
    obtain ⟨j, hj, rfl⟩ := Event.wantedAt?_eq_some_iff.mp hk
    rw [Option.some.inj hj]

example : [.expect 0 'a', .expect 2 'c', .reach 1, .expect 2 'b', .expect 2 'c',
    .reach 2, .expect 1 'd'].foldl note nowhere = ⟨some 2, ['c', 'b']⟩ := by
  decide

end Furthest

namespace Run

variable [DecidableEq K] {r : Run K}

/-- Nothing has failed after the index at which a run is reported. -/
theorem le_errorIndex {e : Event K} (he : e ∈ r.trace) {i : Nat}
    (hi : e.failure? = some i) : i ≤ r.errorIndex := by
  have h := Furthest.summarizes_ofTrace r.trace
  obtain ⟨j, hj, hle⟩ := h.le (List.mem_reverse.mpr he) hi
  rw [errorIndex, furthest, hj]
  exact hle

/-- **What a failed run expects** is what was wanted where it is reported. -/
theorem mem_expected_iff {e : Event K} (he : e ∈ r.trace) {i : Nat}
    (hi : e.failure? = some i) {k : K} :
    k ∈ r.furthest.expected ↔ .expect r.errorIndex k ∈ r.trace := by
  have h := Furthest.summarizes_ofTrace r.trace
  obtain ⟨j, hj, _⟩ := h.le (List.mem_reverse.mpr he) hi
  rw [errorIndex, furthest, hj, h.mem_expected, hj]
  simp

end Run

end Descent
