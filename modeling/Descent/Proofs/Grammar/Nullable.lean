import Descent.Grammar.Nullable
import Mathlib.Data.List.Perm.Subperm

/-!
# The passes that find nullable names come to an end

`Grammar.nullable` makes at most one pass more than there are names. That is
enough: what is known never has a name twice and only declared names, and a
pass that changes it makes it longer. So the last pass has changed nothing, and
what is known then is **closed** (`Grammar.nullable_closed`): a non-terminal one
of whose rules can match nothing, given the names known to be nullable, is
itself known to be nullable. More passes would find the same
(`Grammar.nullableFrom_eq_nullable`).

Nothing else is known: a list that is closed holds every nullable name
(`Grammar.nullable_subset`). So what is kept by going from the names in a rule to
the name of its non-terminal holds of all nullable names
(`Grammar.nullable_induction`).
-/

namespace Descent

variable {K α : Type}

/-! ## More names make no clause less nullable -/

namespace Clause

variable {p q : String → Bool}

mutual

/-- **A clause stays nullable** if more of the names in it are. -/
theorem isNullable_mono :
    (c : Clause K) → (∀ x ∈ c.references, p x = true → q x = true) →
      c.isNullable p = true → c.isNullable q = true
  | token .., _, hc => hc
  | reference x _, h, hc => h x List.mem_cons_self hc
  | group members, h, hc => allNullable_mono members h hc
  | choice branches, h, hc => anyNullable_mono branches h hc
  | optional _, _, _ | star _, _, _ => rfl
  | plus body, h, hc => isNullable_mono body h hc

/-- Clauses that are all nullable stay so if more of the names in them are. -/
theorem allNullable_mono :
    (cs : List (Clause K)) →
      (∀ x ∈ referencesAll cs, p x = true → q x = true) →
      allNullable p cs = true → allNullable q cs = true
  | [], _, _ => rfl
  | c :: cs, h, hcs => by
    rw [referencesAll, List.forall_mem_append] at h
    rw [allNullable, Bool.and_eq_true] at hcs ⊢
    exact ⟨isNullable_mono c h.1 hcs.1, allNullable_mono cs h.2 hcs.2⟩

/-- Some clause stays nullable if more of the names in the clauses are. -/
theorem anyNullable_mono :
    (cs : List (Clause K)) →
      (∀ x ∈ referencesAll cs, p x = true → q x = true) →
      anyNullable p cs = true → anyNullable q cs = true
  | [], _, hcs => hcs
  | c :: cs, h, hcs => by
    rw [referencesAll, List.forall_mem_append] at h
    rw [anyNullable, Bool.or_eq_true] at hcs ⊢
    exact hcs.imp (isNullable_mono c h.1) (anyNullable_mono cs h.2)

end

end Clause

/-- The names in a rule of a non-terminal are names in the non-terminal. -/
theorem NonTerminal.mem_references {n : NonTerminal K α} {rule : Rule K α}
    (hrule : rule ∈ n.rules) {x : String} (hx : x ∈ rule.references) :
    x ∈ n.references :=
  List.mem_flatMap.mpr ⟨rule, hrule, hx⟩

theorem NonTerminal.isNullable_mono {p q : String → Bool} {n : NonTerminal K α}
    (h : ∀ x ∈ n.references, p x = true → q x = true)
    (hn : n.isNullable p = true) : n.isNullable q = true := by
  obtain ⟨rule, hrule, hr⟩ := List.any_eq_true.mp hn
  have hrefs : ∀ x ∈ rule.references, p x = true → q x = true :=
    fun x hx => h x (n.mem_references hrule hx)
  exact List.any_eq_true.mpr ⟨rule, hrule, Clause.allNullable_mono _ hrefs hr⟩

namespace Grammar

variable {g : Grammar K α}

/-- **A set of names that no pass would add to.** -/
def ClosedUnderNullable (g : Grammar K α) (known : List String) : Prop :=
  ∀ n ∈ g.nonTerminals, n.isNullable known.contains = true → n.name ∈ known

/-! ## One step -/

/-- A step leaves what is known as it is, or adds one new name at the end, which is
the name of a non-terminal that is nullable by what is known. -/
theorem addNullable_cases (known : List String) (n : NonTerminal K α) :
    (addNullable known n = known ∧
        (n.isNullable known.contains = true → n.name ∈ known)) ∨
      n.name ∉ known ∧ n.isNullable known.contains = true ∧
        addNullable known n = known ++ [n.name] := by
  unfold addNullable
  by_cases hk : n.name ∈ known
  · exact .inl ⟨if_pos (by simpa using hk), fun _ => hk⟩
  · rw [if_neg (by simpa using hk)]
    by_cases hn : n.isNullable known.contains = true
    · exact .inr ⟨hk, hn, if_pos hn⟩
    · exact .inl ⟨if_neg hn, fun h => absurd h hn⟩

theorem length_le_addNullable (known : List String) (n : NonTerminal K α) :
    known.length ≤ (addNullable known n).length := by
  rcases addNullable_cases known n with ⟨h, _⟩ | ⟨_, _, h⟩ <;> simp [h]

theorem nodup_addNullable {known : List String} (h : known.Nodup)
    (n : NonTerminal K α) : (addNullable known n).Nodup := by
  rcases addNullable_cases known n with ⟨h', _⟩ | ⟨hn, _, h'⟩
  · rwa [h']
  · rw [h']
    exact List.nodup_append.mpr ⟨h, by simp, fun a ha b hb hab => by
      rw [List.mem_singleton.mp hb] at hab
      exact hn (hab ▸ ha)⟩

theorem mem_addNullable {known : List String} {n : NonTerminal K α} {x : String}
    (h : x ∈ addNullable known n) : x ∈ known ∨ x = n.name := by
  rcases addNullable_cases known n with ⟨h', _⟩ | ⟨_, _, h'⟩
  · exact .inl (h' ▸ h)
  · simpa [h'] using h

/-! ## One pass -/

theorem length_le_nullablePass (ns : List (NonTerminal K α)) (known : List String) :
    known.length ≤ (ns.foldl addNullable known).length := by
  induction ns generalizing known with
  | nil => exact Nat.le_refl _
  | cons n ns ih =>
    exact Nat.le_trans (length_le_addNullable known n) (ih (addNullable known n))

/-- A pass that changes how much is known makes it more. -/
theorem length_lt_nullablePass {known : List String}
    (h : (g.nullablePass known).length ≠ known.length) :
    known.length < (g.nullablePass known).length :=
  Nat.lt_of_le_of_ne (length_le_nullablePass g.nonTerminals known) (Ne.symm h)

/-- There are no more different declared names than non-terminals. -/
theorem length_le_size {known : List String} (h : known.Nodup ∧ known ⊆ g.names) :
    known.length ≤ g.size := by
  have hle := (List.subperm_of_subset h.1 h.2).length_le
  rwa [names, List.length_map] at hle

/-- A pass keeps what is known duplicate-free and among the declared names. -/
theorem nodup_nullablePass {known : List String}
    (h : known.Nodup ∧ known ⊆ g.names) :
    (g.nullablePass known).Nodup ∧ g.nullablePass known ⊆ g.names := by
  have key : ∀ (ns : List (NonTerminal K α)) (known : List String),
      ns ⊆ g.nonTerminals → known.Nodup ∧ known ⊆ g.names →
      (ns.foldl addNullable known).Nodup ∧
        ns.foldl addNullable known ⊆ g.names := by
    intro ns
    induction ns with
    | nil => exact fun _ _ h => h
    | cons n ns ih =>
      intro known hns h
      refine ih _ (fun _ hx => hns (List.mem_cons_of_mem n hx))
        ⟨nodup_addNullable h.1 n, fun x hx => ?_⟩
      rcases mem_addNullable hx with hx | rfl
      · exact h.2 hx
      · exact List.mem_map_of_mem (hns List.mem_cons_self)
  exact key g.nonTerminals known (List.Subset.refl _) h

/-- **A pass that adds nothing had nothing to add.** -/
theorem closed_of_length_nullablePass {known : List String}
    (h : (g.nullablePass known).length = known.length) :
    g.ClosedUnderNullable known := by
  have key : ∀ (ns : List (NonTerminal K α)),
      (ns.foldl addNullable known).length = known.length →
      ∀ n ∈ ns, n.isNullable known.contains = true → n.name ∈ known := by
    intro ns
    induction ns with
    | nil => exact fun _ n hn => absurd hn List.not_mem_nil
    | cons m ns ih =>
      intro hlen n hn
      rcases addNullable_cases known m with ⟨hm, hclosed⟩ | ⟨_, _, hm⟩
      · rw [List.foldl_cons, hm] at hlen
        rcases List.mem_cons.mp hn with rfl | hn
        · exact hclosed
        · exact ih hlen n hn
      · -- a step that adds a name makes the whole pass longer
        have := length_le_nullablePass ns (addNullable known m)
        rw [List.foldl_cons] at hlen
        rw [hm, List.length_append, List.length_singleton] at this
        rw [hm] at hlen
        omega
  exact key g.nonTerminals h

/-! ## All passes -/

/-- With passes to spare, the last one changes nothing. -/
theorem closed_nullableFrom (passes : Nat) {known : List String}
    (h : known.Nodup ∧ known ⊆ g.names) (hp : g.size < passes + known.length) :
    g.ClosedUnderNullable (g.nullableFrom passes known) := by
  induction passes generalizing known with
  | zero =>
    have := length_le_size h
    omega
  | succ passes ih =>
    rw [nullableFrom]
    split
    · next hlen => exact closed_of_length_nullablePass hlen
    · next hlen =>
      have := length_lt_nullablePass hlen
      exact ih (nodup_nullablePass h) (by omega)

/-- **The nullable names are closed**: whoever can match nothing by them is one
of them. -/
theorem nullable_closed (g : Grammar K α) : g.ClosedUnderNullable g.nullable :=
  closed_nullableFrom (g.size + 1) ⟨List.nodup_nil, List.nil_subset _⟩ (by omega)

/-- More passes than suffice change nothing. -/
theorem nullableFrom_eq_of_le {passes more : Nat} {known : List String}
    (h : known.Nodup ∧ known ⊆ g.names) (hp : g.size < passes + known.length)
    (hle : passes ≤ more) :
    g.nullableFrom more known = g.nullableFrom passes known := by
  induction passes generalizing known more with
  | zero =>
    have := length_le_size h
    omega
  | succ passes ih =>
    obtain ⟨more, rfl⟩ := Nat.exists_eq_add_of_le' hle
    rw [← Nat.add_assoc, nullableFrom, nullableFrom]
    split
    · rfl
    · next hlen =>
      have := length_lt_nullablePass hlen
      exact ih (nodup_nullablePass h) (by omega) (by omega)

/-- **The passes come to an end**: all numbers of passes above the number of names
give the same names. -/
theorem nullableFrom_eq_nullable {passes : Nat} (h : g.size < passes) :
    g.nullableFrom passes [] = g.nullable :=
  nullableFrom_eq_of_le ⟨List.nodup_nil, List.nil_subset _⟩ (by omega) h

/-- A pass has nothing to add to what is closed. -/
theorem nullablePass_of_closed {known : List String}
    (h : g.ClosedUnderNullable known) : g.nullablePass known = known := by
  have hstep : ∀ n ∈ g.nonTerminals, addNullable known n = known := by
    intro n hn
    rcases addNullable_cases known n with ⟨h', _⟩ | ⟨hnot, hnull, _⟩
    · exact h'
    · exact absurd (h n hn hnull) hnot
  have key : ∀ ns : List (NonTerminal K α), ns ⊆ g.nonTerminals →
      ns.foldl addNullable known = known := by
    intro ns
    induction ns with
    | nil => exact fun _ => rfl
    | cons n ns ih =>
      intro hns
      obtain ⟨hn, hns⟩ := List.cons_subset.mp hns
      rw [List.foldl_cons, hstep n hn, ih hns]
  exact key g.nonTerminals (List.Subset.refl _)

/-- A nullable non-terminal is known by its name. -/
theorem contains_nullable {x : String} {n : NonTerminal K α}
    (hx : g.get? x = some n)
    (hn : n.isNullable g.nullable.contains = true) :
    g.nullable.contains x = true := by
  have := g.nullable_closed n (List.mem_of_find?_eq_some hx) hn
  rw [name_of_get? hx] at this
  simpa using this

/-! ## Nothing else is known -/

/-- A pass over some of the non-terminals stays inside every closed list. -/
theorem foldl_addNullable_subset {ns : List (NonTerminal K α)}
    {known closed : List String} (hclosed : g.ClosedUnderNullable closed)
    (hns : ns ⊆ g.nonTerminals) (h : known ⊆ closed) :
    ns.foldl addNullable known ⊆ closed := by
  induction ns generalizing known with
  | nil => exact h
  | cons n ns ih =>
    obtain ⟨hn, hns⟩ := List.cons_subset.mp hns
    refine ih hns ?_
    rcases addNullable_cases known n with ⟨h', _⟩ | ⟨_, hnull, h'⟩
    · exact h'.symm ▸ h
    · have hmono : ∀ x ∈ n.references,
          known.contains x = true → closed.contains x = true := fun x _ hx =>
        List.contains_iff_mem.mpr (h (List.contains_iff_mem.mp hx))
      have hmem := hclosed n hn (NonTerminal.isNullable_mono hmono hnull)
      rw [h']
      exact List.append_subset.mpr ⟨h, List.cons_subset.mpr ⟨hmem, List.nil_subset _⟩⟩

/-- **The nullable names are the least closed list**: every name among them is in
every list that no pass would add to. -/
theorem nullable_subset {closed : List String}
    (h : g.ClosedUnderNullable closed) : g.nullable ⊆ closed := by
  have key : ∀ (passes : Nat) (known : List String), known ⊆ closed →
      g.nullableFrom passes known ⊆ closed := by
    intro passes
    induction passes with
    | zero => exact fun _ hknown => hknown
    | succ passes ih =>
      intro known hknown
      rw [nullableFrom]
      split
      · exact hknown
      · exact ih _ (foldl_addNullable_subset h (List.Subset.refl _) hknown)
  exact key (g.size + 1) [] (List.nil_subset _)

/-- **What the nullable names have in common** is what a name has if its
non-terminal is nullable by names that have it. -/
theorem nullable_induction {P : String → Prop} [DecidablePred P]
    (h : ∀ n ∈ g.nonTerminals, n.isNullable (fun x => decide (P x)) = true →
      P n.name) {x : String} (hx : x ∈ g.nullable) : P x := by
  have hclosed : g.ClosedUnderNullable (g.names.filter (decide <| P ·)) := by
    intro n hn hnull
    refine List.mem_filter.mpr ⟨List.mem_map_of_mem hn, ?_⟩
    refine decide_eq_true (h n hn ?_)
    refine NonTerminal.isNullable_mono (fun y _ hy => ?_) hnull
    exact (List.mem_filter.mp (List.contains_iff_mem.mp hy)).2
  exact of_decide_eq_true (List.mem_filter.mp (nullable_subset hclosed hx)).2

/-- **A nullable name is nullable by the nullable names**, of which it need not be
one of the first. -/
theorem isNullable_of_contains_nullable {x : String}
    (hx : g.nullable.contains x = true) :
    ∃ n, g.get? x = some n ∧ n.isNullable g.nullable.contains = true := by
  classical
  refine nullable_induction (P := fun x => ∃ n, g.get? x = some n ∧
    n.isNullable g.nullable.contains = true) (fun n hn hnull => ?_)
    (List.contains_iff_mem.mp hx)
  refine ⟨n, get?_of_mem hn, NonTerminal.isNullable_mono (fun y _ hy => ?_) hnull⟩
  obtain ⟨n', hn', hnull'⟩ := of_decide_eq_true hy
  exact contains_nullable hn' hnull'

end Grammar

end Descent
