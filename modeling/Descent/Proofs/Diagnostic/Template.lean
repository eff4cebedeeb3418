import Descent.Diagnostic.Template
import Descent.Proofs.Text.Separated
import Mathlib.Logic.Relation

/-!
# What a template is made of

A template is read once, from left to right, and what is read does not depend on
the arguments: it is made of literal texts and of places (`Template.ConsistsOf`), in
one way only. To fill it is to put the arguments in the places and to keep the rest
(`ConsistsOf.fillFrom_eq_flatMap`), so no argument is looked at for braces.

Filling can be done in rounds, each of which goes on to the next opening brace
(`Filling.round`). A round leaves a shorter rest, so the rounds come to an end,
and then the template is filled (`Filling.exists_rounds`).
-/

namespace Descent.Template

/-! ## Places -/

/-- **A place is opened** by a brace in front of a text: before the first closing
brace stands a number. -/
structure Opens (cs written : List Char) (i : Nat) (rest : List Char) : Prop where
  /-- What is written in the place and what follows it. -/
  eq_append : cs = written ++ '\x7d' :: rest
  /-- The place goes to the first closing brace. -/
  closed : '\x7d' ∉ written
  /-- What is written is a number. -/
  index_eq : index? written = some i

section Opens

variable {cs written written' rest rest' : List Char} {i i' n : Nat}

/-- A brace opens at most one place. -/
theorem Opens.unique (h : Opens cs written i rest) (h' : Opens cs written' i' rest') :
    written = written' ∧ i = i' ∧ rest = rest' := by
  obtain ⟨rfl, rfl⟩ := append_cons_inj h.closed h'.closed
    (h.eq_append.symm.trans h'.eq_append)
  exact ⟨rfl, Option.some.inj (h.index_eq.symm.trans h'.index_eq), rfl⟩

theorem Opens.length_lt (h : Opens cs written i rest) : rest.length < cs.length := by
  rw [h.eq_append, List.length_append, List.length_cons]
  omega

/-- What is written before the first closing brace decides. -/
theorem place?_append_cons (h : '\x7d' ∉ written) (rest : List Char) :
    place? (written ++ '\x7d' :: rest) =
      (index? written).map fun i => (i, written.length + 1) := by
  rw [place?, takeWhile_append_cons h]
  simp

/-- Without a closing brace there is no place. -/
theorem place?_of_not_mem (h : '\x7d' ∉ cs) : place? cs = none := by
  have hwhile : cs.takeWhile (· != '\x7d') = cs := by
    simpa using takeWhile_append h []
  rw [place?, hwhile]
  simp

theorem place?_eq_some_iff :
    place? cs = some (i, n) ↔
      ∃ written rest, Opens cs written i rest ∧ n = written.length + 1 := by
  constructor
  · intro h
    by_cases hmem : '\x7d' ∈ cs
    · obtain ⟨written, rest, rfl, hclosed⟩ := List.eq_append_cons_of_mem hmem
      rw [place?_append_cons hclosed, Option.map_eq_some_iff] at h
      obtain ⟨i, hi, heq⟩ := h
      obtain ⟨rfl, rfl⟩ := Prod.mk.inj heq
      exact ⟨written, rest, ⟨rfl, hclosed, hi⟩, rfl⟩
    · rw [place?_of_not_mem hmem] at h
      cases h
  · rintro ⟨written, rest, h, rfl⟩
    rw [h.eq_append, place?_append_cons h.closed, h.index_eq, Option.map_some]

theorem place?_eq_none_iff :
    place? cs = none ↔ ∀ written i rest, ¬ Opens cs written i rest := by
  rw [Option.eq_none_iff_forall_ne_some]
  constructor
  · intro h written i rest hopens
    exact h _ (place?_eq_some_iff.mpr ⟨written, rest, hopens, rfl⟩)
  · rintro h ⟨i, n⟩ hplace
    obtain ⟨written, rest, hopens, _⟩ := place?_eq_some_iff.mp hplace
    exact h written i rest hopens

end Opens

/-! ## What is filled -/

section Fill

variable {args : List String} {before after written rest : List Char} {i : Nat}

/-- What stands before an opening brace is kept. -/
theorem fillFrom_append (h : '\x7b' ∉ before) (cs : List Char) :
    fillFrom args 0 (before ++ cs) = before ++ fillFrom args 0 cs := by
  induction before with
  | nil => rfl
  | cons c before ih =>
    rw [List.mem_cons, not_or] at h
    obtain ⟨hc, h⟩ := h
    rw [List.cons_append, fillFrom, if_neg (Ne.symm hc), ih h, List.cons_append]

/-- A text without an opening brace is kept. -/
theorem fillFrom_of_not_mem (h : '\x7b' ∉ before) :
    fillFrom args 0 before = before := by
  calc fillFrom args 0 before
    _ = fillFrom args 0 (before ++ []) := by rw [List.append_nil]
    _ = before := by rw [fillFrom_append h, fillFrom, List.append_nil]

/-- An argument is put in the place that is opened. -/
theorem fillFrom_of_opens (h : Opens after written i rest) :
    fillFrom args 0 ('\x7b' :: after) =
      (args.getD i "").toList ++ fillFrom args 0 rest := by
  have hplace := place?_eq_some_iff.mpr ⟨written, rest, h, rfl⟩
  rw [fillFrom, if_pos rfl, hplace]
  show _ ++ fillFrom args (written.length + 1) after = _
  rw [fillFrom_eq_drop, h.eq_append]
  simp

/-- A brace that opens no place is kept. -/
theorem fillFrom_of_not_opens (h : ∀ written i rest, ¬ Opens after written i rest) :
    fillFrom args 0 ('\x7b' :: after) = '\x7b' :: fillFrom args 0 after := by
  rw [fillFrom, if_pos rfl, place?_eq_none_iff.mpr h]

end Fill

/-! ## What a template consists of -/

/-- **A piece of a template.** -/
inductive Segment where
  /-- A text that is kept. -/
  | literal (text : List Char)
  /-- A place for the argument of a number, with what is written in it. -/
  | place (written : List Char) (index : Nat)

namespace Segment

/-- The piece as it stands in the template. -/
def source : Segment → List Char
  | literal text => text
  | place written _ => '\x7b' :: written ++ ['\x7d']

/-- The piece with arguments: a text stays what it is, and in a place stands its
argument, or nothing if there is none of that number. -/
def filled (args : List String) : Segment → List Char
  | literal text => text
  | place _ i => (args.getD i "").toList

end Segment

/-- **What a template consists of**, read from left to right. An opening brace either
opens a place, after which reading goes on, or is a text of its own, and what follows
it is read as well. -/
inductive ConsistsOf : List Char → List Segment → Prop
  /-- No brace is left. -/
  | rest {cs : List Char} : '\x7b' ∉ cs → ConsistsOf cs [.literal cs]
  /-- The next brace opens a place. -/
  | place {before after written rest : List Char} {i : Nat} {segments : List Segment} :
      '\x7b' ∉ before → Opens after written i rest → ConsistsOf rest segments →
      ConsistsOf (before ++ '\x7b' :: after)
        (.literal before :: .place written i :: segments)
  /-- The next brace opens no place. -/
  | brace {before after : List Char} {segments : List Segment} :
      '\x7b' ∉ before → (∀ written i rest, ¬ Opens after written i rest) →
      ConsistsOf after segments →
      ConsistsOf (before ++ '\x7b' :: after)
        (.literal before :: .literal ['\x7b'] :: segments)

namespace ConsistsOf

variable {cs : List Char} {segments segments' : List Segment}

/-- **A template is made of nothing but its pieces**, each character once. -/
theorem flatMap_source (h : ConsistsOf cs segments) :
    segments.flatMap Segment.source = cs := by
  induction h with
  | rest _ => simp [Segment.source]
  | place _ hopens _ ih => simp [Segment.source, ih, hopens.eq_append]
  | brace _ _ _ ih => simp [Segment.source, ih]

/-- **To fill a template** is to fill its pieces one after the other. -/
theorem fillFrom_eq_flatMap (h : ConsistsOf cs segments) (args : List String) :
    fillFrom args 0 cs = segments.flatMap (Segment.filled args) := by
  induction h with
  | rest hcs => simp [Segment.filled, fillFrom_of_not_mem hcs]
  | place hbefore hopens _ ih =>
    rw [fillFrom_append hbefore, fillFrom_of_opens hopens, ih]
    simp [Segment.filled]
  | brace hbefore hopens _ ih =>
    rw [fillFrom_append hbefore, fillFrom_of_not_opens hopens, ih]
    simp [Segment.filled]

/-- **A template consists of its pieces in one way.** -/
theorem unique (h : ConsistsOf cs segments) (h' : ConsistsOf cs segments') :
    segments = segments' := by
  induction h generalizing segments' with
  | rest hcs =>
    cases h' with
    | rest _ => rfl
    | place _ _ _ | brace _ _ _ => simp at hcs
  | @place before after _ _ _ _ hbefore hopens _ ih =>
    generalize hcs : before ++ '\x7b' :: after = cs at h'
    cases h' with
    | rest hmem => simp [← hcs] at hmem
    | place hbefore' hopens' hrest =>
      obtain ⟨rfl, rfl⟩ := append_cons_inj hbefore hbefore' hcs
      obtain ⟨rfl, rfl, rfl⟩ := hopens.unique hopens'
      rw [ih hrest]
    | brace hbefore' hopens' _ =>
      obtain ⟨rfl, rfl⟩ := append_cons_inj hbefore hbefore' hcs
      exact absurd hopens (hopens' _ _ _)
  | @brace before after _ hbefore hopens _ ih =>
    generalize hcs : before ++ '\x7b' :: after = cs at h'
    cases h' with
    | rest hmem => simp [← hcs] at hmem
    | place hbefore' hopens' _ =>
      obtain ⟨rfl, rfl⟩ := append_cons_inj hbefore hbefore' hcs
      exact absurd hopens' (hopens _ _ _)
    | brace hbefore' _ hafter =>
      obtain ⟨rfl, rfl⟩ := append_cons_inj hbefore hbefore' hcs
      rw [ih hafter]

end ConsistsOf

/-- **Every template consists of some pieces.** -/
theorem exists_consistsOf (cs : List Char) : ∃ segments, ConsistsOf cs segments := by
  induction hn : cs.length using Nat.strongRecOn generalizing cs with
  | ind n ih =>
    by_cases hmem : '\x7b' ∈ cs
    · obtain ⟨before, after, rfl, hbefore⟩ := List.eq_append_cons_of_mem hmem
      rw [List.length_append, List.length_cons] at hn
      by_cases hopens : ∃ written i rest, Opens after written i rest
      · obtain ⟨written, i, rest, hopens⟩ := hopens
        have hlt := hopens.length_lt
        obtain ⟨segments, h⟩ := ih rest.length (by omega) rest rfl
        exact ⟨_, .place hbefore hopens h⟩
      · obtain ⟨segments, h⟩ := ih after.length (by omega) after rfl
        exact ⟨_, .brace hbefore (fun _ _ _ h => hopens ⟨_, _, _, h⟩) h⟩
    · exact ⟨_, .rest hmem⟩

/-! ## Filling in rounds -/

/-- **How far filling has come**: what is written, and what is left of the
template. -/
structure Filling where
  /-- What is written. -/
  written : List Char
  /-- What is left of the template. -/
  left : List Char

namespace Filling

open Relation (ReflTransGen)

/-- **One round** goes on to the next opening brace and past the place that it opens,
or past the brace. There is none if no brace is left. -/
def round (args : List String) (s : Filling) : Option Filling :=
  let before := s.left.takeWhile (· != '\x7b')
  match s.left.drop before.length with
  | [] => none
  | _ :: after =>
    match place? after with
    | some (i, n) =>
      some ⟨s.written ++ before ++ (args.getD i "").toList, after.drop n⟩
    | none => some ⟨s.written ++ before ++ ['\x7b'], after⟩

/-- **Some rounds.** -/
def Rounds (args : List String) : Filling → Filling → Prop :=
  ReflTransGen fun s s' => s.round args = some s'

variable {args : List String} {s s' : Filling}

/-- **What a round can do.** -/
theorem round_cases (h : s.round args = some s') :
    ∃ before after, '\x7b' ∉ before ∧ s.left = before ++ '\x7b' :: after ∧
      ((∃ written i rest, Opens after written i rest ∧
          s' = ⟨s.written ++ before ++ (args.getD i "").toList, rest⟩) ∨
        (∀ written i rest, ¬ Opens after written i rest) ∧
          s' = ⟨s.written ++ before ++ ['\x7b'], after⟩) := by
  obtain ⟨written, left⟩ := s
  by_cases hmem : '\x7b' ∈ left
  · obtain ⟨before, after, rfl, hbefore⟩ := List.eq_append_cons_of_mem hmem
    refine ⟨before, after, hbefore, rfl, ?_⟩
    simp only [round, takeWhile_append_cons hbefore, List.drop_left] at h
    split at h
    · next i n hplace =>
      obtain ⟨inner, rest, hopens, rfl⟩ := place?_eq_some_iff.mp hplace
      have hdrop : after.drop (inner.length + 1) = rest := by
        rw [hopens.eq_append]
        simp
      rw [hdrop] at h
      exact .inl ⟨inner, i, rest, hopens, (Option.some.inj h).symm⟩
    · next hplace =>
      exact .inr ⟨place?_eq_none_iff.mp hplace, (Option.some.inj h).symm⟩
  · have hwhile : left.takeWhile (· != '\x7b') = left := by
      simpa using takeWhile_append hmem []
    simp [round, hwhile] at h

/-- No round is left where no brace is. -/
theorem not_mem_left_of_round (h : s.round args = none) : '\x7b' ∉ s.left := by
  intro hmem
  obtain ⟨written, left⟩ := s
  obtain ⟨before, after, rfl, hbefore⟩ := List.eq_append_cons_of_mem hmem
  simp only [round, takeWhile_append_cons hbefore, List.drop_left] at h
  split at h <;> cases h

/-- A round leaves less than there was. -/
theorem length_left_lt (h : s.round args = some s') :
    s'.left.length < s.left.length := by
  obtain ⟨before, after, _, hleft, hcases⟩ := round_cases h
  have hafter : after.length < s.left.length := by
    rw [hleft, List.length_append, List.length_cons]
    omega
  obtain ⟨_, _, rest, hopens, rfl⟩ | ⟨_, rfl⟩ := hcases
  · exact Nat.lt_trans hopens.length_lt hafter
  · exact hafter

/-- **A round keeps what the template will be filled to.** -/
theorem fillFrom_of_round (h : s.round args = some s') :
    s'.written ++ fillFrom args 0 s'.left = s.written ++ fillFrom args 0 s.left := by
  obtain ⟨before, after, hbefore, hleft, ⟨_, _, rest, hopens, rfl⟩ | ⟨hopens, rfl⟩⟩ :=
    round_cases h
  · rw [hleft, fillFrom_append hbefore, fillFrom_of_opens hopens]
    simp
  · rw [hleft, fillFrom_append hbefore, fillFrom_of_not_opens hopens]
    simp

theorem fillFrom_of_rounds (h : Rounds args s s') :
    s'.written ++ fillFrom args 0 s'.left = s.written ++ fillFrom args 0 s.left := by
  induction h with
  | refl => rfl
  | tail _ hround ih => rw [fillFrom_of_round hround, ih]

/-- **The rounds come to an end.** -/
theorem exists_rounds (args : List String) (s : Filling) :
    ∃ s', Rounds args s s' ∧ s'.round args = none := by
  induction hn : s.left.length using Nat.strongRecOn generalizing s with
  | ind n ih =>
    cases h : s.round args with
    | none => exact ⟨s, .refl, h⟩
    | some t =>
      obtain ⟨s', hrounds, hend⟩ := ih _ (hn ▸ length_left_lt h) t rfl
      exact ⟨s', hrounds.head h, hend⟩

end Filling

/-! ## What filling does -/

/-- **Filling goes over a template once and does not look at the arguments.** Every
template consists of literal texts and places in one way. With any arguments it is
filled by keeping the texts as they stand in the template and putting into each
place the argument of its number as it is, or nothing if there is none. Filling in
rounds comes to an end with that text. -/
theorem fill_exact (template : String) :
    ∃ segments, ConsistsOf template.toList segments ∧
      (∀ segments', ConsistsOf template.toList segments' → segments' = segments) ∧
      segments.flatMap Segment.source = template.toList ∧
      ∀ args, (fill template args).toList = segments.flatMap (Segment.filled args) ∧
        ∃ s, Filling.Rounds args ⟨[], template.toList⟩ s ∧ s.round args = none ∧
          s.written ++ s.left = (fill template args).toList := by
  obtain ⟨segments, h⟩ := exists_consistsOf template.toList
  refine ⟨segments, h, fun _ h' => h'.unique h, h.flatMap_source, fun args => ?_⟩
  rw [fill, String.toList_ofList]
  refine ⟨h.fillFrom_eq_flatMap args, ?_⟩
  obtain ⟨s, hrounds, hend⟩ := Filling.exists_rounds args ⟨[], template.toList⟩
  have hfill := Filling.fillFrom_of_rounds hrounds
  rw [fillFrom_of_not_mem (Filling.not_mem_left_of_round hend)] at hfill
  exact ⟨s, hrounds, hend, hfill⟩

example : fill "\x7b\x7b0\x7d\x7d \x7bx\x7d \x7b3\x7d \x7b" ["\x7b1\x7d", "b"] =
    "\x7b\x7b1\x7d\x7d \x7bx\x7d  \x7b" := by
  decide

end Descent.Template
