import Mathlib.Data.List.Forall2
import Descent.Proofs.Tree.Unmarked

/-!
# The fold of the live part of a tree

The value of a tree is made from its live part (`Tree.Folds`): a token stands for
itself, and the value of a node is made from those of its children that are not
discarded (`Tree.folds_iff`). So what is discarded can be replaced
(`Tree.replaceAt_discarded`). The value is an output exactly if a callback makes it at
the root, and no other tree has an output (`Tree.reduce_eq_error_iff`).
-/

namespace Descent

variable {K α : Type}

/-- Whether the value of a node is made by a callback. -/
def Label.isCaller (l : Label K α) : Bool :=
  match l.kind with
  | .rule | .expression => true
  | .many | .optional | .group => false

namespace Tree

/-! ## The fold of a tree -/

/-- The children that callbacks are shown. -/
def liveChildren (cs : List (Tree K α)) : List (Tree K α) :=
  cs.filter (!·.isDiscarded)

/-- **The fold of the live part of a tree.** -/
inductive Folds : Tree K α → Value K α → Prop
  /-- A token stands for itself. -/
  | leaf {t : Token K} {d : Bool} : Folds (.leaf t d) (.token t)
  /-- A callback makes an output of the values of the live children. -/
  | out {l : Label K α} {cs : List (Tree K α)} {f : Callback K α}
      {vs : List (Value K α)} :
      l.isCaller = true → l.callback = some f →
      List.Forall₂ Folds (liveChildren cs) vs → Folds (.node l cs) (.out (f vs))
  /-- A repetition, and a group, is the list of the values of the live children. -/
  | list {l : Label K α} {cs : List (Tree K α)} {vs : List (Value K α)} :
      l.kind = .many ∨ l.kind = .group →
      List.Forall₂ Folds (liveChildren cs) vs → Folds (.node l cs) (.list vs)
  /-- An option without children is missing. -/
  | missing {l : Label K α} :
      l.kind = .optional → Folds (.node l []) (.optional none)
  /-- An option with children, even if all are discarded, is there. -/
  | there {l : Label K α} {cs : List (Tree K α)} {vs : List (Value K α)} :
      l.kind = .optional → cs ≠ [] → List.Forall₂ Folds (liveChildren cs) vs →
      Folds (.node l cs) (.optional (some (contentOf vs)))

/-- The values of the live children, one by one. -/
theorem liveValues_eq_ok_iff {cs : List (Tree K α)} {vs : List (Value K α)} :
    liveValues cs = .ok vs ↔
      List.Forall₂ (fun c v => c.value = .ok v) (liveChildren cs) vs := by
  induction cs generalizing vs with
  | nil => simp [liveValues, liveChildren, eq_comm]
  | cons c cs ih =>
    rw [liveValues, liveChildren, List.filter_cons]
    cases c.isDiscarded with
    | true => exact ih
    | false =>
      simp only [Bool.false_eq_true, if_false, Bool.not_false, if_true]
      cases hv : c.value with
      | error e => simp [List.forall₂_cons_left_iff, hv]
      | ok v =>
        rw [List.forall₂_cons_left_iff]
        cases hvs : liveValues cs with
        | error e =>
          rw [hvs] at ih
          simp only [reduceCtorEq, false_iff, hv, Except.ok.injEq] at ih ⊢
          rintro ⟨_, vs', -, hrest, -⟩
          exact ih hrest
        | ok vs' =>
          rw [hvs] at ih
          simp only [Except.ok.injEq, hv] at ih ⊢
          constructor
          · rintro rfl
            exact ⟨v, vs', rfl, ih.mp rfl, rfl⟩
          · rintro ⟨_, ws, rfl, hrest, rfl⟩
            rw [ih.mpr hrest]

theorem value_node_eq_ok_iff {l : Label K α} {cs : List (Tree K α)} {v : Value K α} :
    (node l cs).value = .ok v ↔
      ∃ vs, liveValues cs = .ok vs ∧ nodeValue l (!cs.isEmpty) vs = .ok v := by
  rw [value]
  cases liveValues cs <;> simp

/-- A node is folded as its value is made. -/
theorem folds_node_iff {l : Label K α} {cs : List (Tree K α)}
    (h : ∀ vs, List.Forall₂ Folds (liveChildren cs) vs ↔ liveValues cs = .ok vs)
    (v : Value K α) : (node l cs).Folds v ↔ (node l cs).value = .ok v := by
  rw [value_node_eq_ok_iff]
  constructor
  · rintro (_ | ⟨hcaller, hf, hvs⟩ | ⟨hkind, hvs⟩ | hkind | ⟨hkind, hne, hvs⟩)
    · refine ⟨_, (h _).mp hvs, ?_⟩
      unfold Label.isCaller at hcaller
      cases hkind : l.kind <;> simp_all [nodeValue]
    · exact ⟨_, (h _).mp hvs, by rcases hkind with hkind | hkind <;> simp [nodeValue, hkind]⟩
    · exact ⟨[], rfl, by simp [nodeValue, hkind]⟩
    · exact ⟨_, (h _).mp hvs, by simp [nodeValue, hkind, hne]⟩
  · rintro ⟨vs, hvs, hv⟩
    have hfolds := (h vs).mpr hvs
    unfold nodeValue at hv
    cases hkind : l.kind with
    | rule | expression =>
      cases hf : l.callback with
      | none => simp [hkind, hf] at hv
      | some f =>
        simp only [hkind, hf, Except.ok.injEq] at hv
        subst hv
        exact .out (by simp [Label.isCaller, hkind]) hf hfolds
    | many =>
      simp only [hkind, Except.ok.injEq] at hv
      subst hv
      exact .list (.inl hkind) hfolds
    | group =>
      simp only [hkind, Except.ok.injEq] at hv
      subst hv
      exact .list (.inr hkind) hfolds
    | optional =>
      simp only [hkind, Except.ok.injEq] at hv
      subst hv
      cases cs with
      | nil => exact .missing hkind
      | cons c cs => exact .there hkind (List.cons_ne_nil c cs) hfolds

mutual

/-- **The value of a tree is the fold of its live part.** -/
theorem folds_iff : (t : Tree K α) → ∀ v, t.Folds v ↔ t.value = .ok v
  | leaf t d => fun v => by
    rw [value, Except.ok.injEq]
    constructor
    · rintro ⟨⟩
      rfl
    · rintro rfl
      exact .leaf
  | node l cs => folds_node_iff fun vs => by
    have hlive : ∀ c ∈ liveChildren cs, ∀ v, c.Folds v ↔ c.value = .ok v :=
      fun c hc => folds_iff_all cs c (List.mem_filter.mp hc).1
    rw [liveValues_eq_ok_iff]
    constructor
    · exact fun h => ((List.forall₂_and_left _ _).mpr ⟨hlive, h⟩).imp
        fun _ v hc => (hc.1 v).mp hc.2
    · exact fun h => ((List.forall₂_and_left _ _).mpr ⟨hlive, h⟩).imp
        fun _ v hc => (hc.1 v).mpr hc.2

/-- The values of some trees are their folds. -/
theorem folds_iff_all :
    (ts : List (Tree K α)) → ∀ t ∈ ts, ∀ v, t.Folds v ↔ t.value = .ok v
  | [] => fun _ h => absurd h List.not_mem_nil
  | t :: ts => List.forall_mem_cons.mpr ⟨folds_iff t, folds_iff_all ts⟩

end

/-! ## Replacing what is discarded -/

/-- The tree with another part at a path. -/
def replaceAt : Tree K α → List Nat → Tree K α → Tree K α
  | _, [], u => u
  | leaf t d, _ :: _, _ => leaf t d
  | node l cs, i :: path, u => node l (cs.modify i (·.replaceAt path u))

/-- Children that are as live, and have the same values where they are, have the same
values together. -/
theorem liveValues_modify {f : Tree K α → Tree K α} {i : Nat} {cs : List (Tree K α)}
    (h : ∀ c, cs[i]? = some c → (f c).isDiscarded = c.isDiscarded ∧
      (c.isDiscarded = false → (f c).value = c.value)) :
    liveValues (cs.modify i f) = liveValues cs := by
  induction cs generalizing i with
  | nil => simp
  | cons c cs ih =>
    cases i with
    | zero =>
      obtain ⟨hd, hv⟩ := h c rfl
      rw [List.modify_zero_cons, liveValues, liveValues, hd]
      cases hc : c.isDiscarded with
      | true => rfl
      | false => rw [hv hc]
    | succ i =>
      rw [List.modify_succ_cons, liveValues, liveValues, ih h]

/-- **What is discarded can be replaced** by what is discarded: the tree is as live as
before, and what is above has the same value. -/
theorem replaceAt_discarded {c u : Tree K α} (hd : c.isDiscarded = true)
    (hu : u.isDiscarded = true) {t : Tree K α} {path : List Nat}
    (hc : t.at? path = some c) :
    (t.replaceAt path u).isDiscarded = t.isDiscarded ∧
      (path ≠ [] → (t.replaceAt path u).value = t.value) := by
  induction path generalizing t with
  | nil =>
    obtain rfl := Option.some.inj hc
    exact ⟨hu.trans hd.symm, fun hne => absurd rfl hne⟩
  | cons i path ih =>
    cases t with
    | leaf => exact ⟨rfl, fun _ => rfl⟩
    | node l cs =>
      refine ⟨rfl, fun _ => ?_⟩
      have hmodify : liveValues (cs.modify i (·.replaceAt path u)) = liveValues cs := by
        refine liveValues_modify fun child hchild => ?_
        have hat : child.at? path = some c := by
          rw [at?, children, hchild] at hc
          exact hc
        refine ⟨(ih hat).1, fun hlive => (ih hat).2 ?_⟩
        rintro rfl
        obtain rfl := Option.some.inj hat
        rw [hd] at hlive
        cases hlive
      have hempty : (cs.modify i (·.replaceAt path u)).isEmpty = cs.isEmpty := by
        cases cs with
        | nil => rw [List.modify_nil]
        | cons => cases i <;> rfl
      rw [replaceAt, value, value, hmodify, hempty]

/-! ## The output -/

/-- Whether the output of the tree is made by a callback at the root. -/
def isOutput (t : Tree K α) : Bool := t.label?.any (·.isCaller)

/-- A value is an output exactly if a callback at the root makes it. -/
theorem Folds.exists_out_iff {t : Tree K α} {v : Value K α} (h : t.Folds v) :
    (∃ x, v = .out x) ↔ t.isOutput = true := by
  cases h with
  | leaf => simp [isOutput, label?]
  | out hcaller => simp [isOutput, label?, hcaller]
  | list hkind =>
    rcases hkind with hkind | hkind <;> simp [isOutput, label?, Label.isCaller, hkind]
  | missing hkind | there hkind => simp [isOutput, label?, Label.isCaller, hkind]

theorem reduce_eq_ok_iff {t : Tree K α} {x : α} :
    t.reduce = .ok x ↔ t.value = .ok (.out x) := by
  unfold reduce
  split
  · next hv => simp [hv]
  · next hv => simp [hv]
  · next v hout hv =>
    simp only [hv, reduceCtorEq, Except.ok.injEq, false_iff]
    exact fun h => hout x h

theorem reduce_eq_error_iff {t : Tree K α} {e : MissingCallback} :
    t.reduce = .error e ↔
      t.value = .error e ∨
        (∃ v, t.value = .ok v) ∧ t.isOutput = false ∧ e = ⟨"<root>"⟩ := by
  unfold reduce
  split
  · next hv => simp [hv]
  · next x hv =>
    have hout := ((folds_iff t _).mpr hv).exists_out_iff.mp ⟨x, rfl⟩
    simp [hv, hout]
  · next v hne hv =>
    have hout : t.isOutput = false := by
      rw [← Bool.not_eq_true, ← ((folds_iff t _).mpr hv).exists_out_iff]
      rintro ⟨x, hx⟩
      exact hne x hx
    simp [hv, hout, eq_comm]

end Tree

end Descent
