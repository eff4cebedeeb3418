import Descent.Proofs.Tree.Map
import Descent.Proofs.Tree.Nodes

/-!
# Trees without discard marks

`Tree.unmarked` takes the discard marks off a tree, and the names of options and
repetitions, which are the written form of their clauses and show the marks in
them. Two trees that are equal without their marks have the same shape, and can be
compared part by part: `Tree.at?` is the part of a tree at a path.

What callbacks are shown differs by the marks, but whether an option was there does
not (`Tree.sameOptions_of_unmarked_eq`): that is decided by its children and not
by what is shown of them.
-/

namespace Descent

variable {K α : Type}

/-- What is written on a node without its discard mark. The name of an option or a
repetition, which shows the marks of its clause, is left out. -/
def Label.unmarked (l : Label K α) : Label K α :=
  { l with
    discarded := false
    name := match l.kind with
      | .optional | .many => ""
      | .rule | .expression | .group => l.name }

namespace Tree

mutual

/-- **The tree without discard marks.** -/
def unmarked : Tree K α → Tree K α
  | leaf t _ => leaf t false
  | node l cs => node l.unmarked (unmarkedAll cs)

/-- The trees of a list without discard marks. -/
def unmarkedAll : List (Tree K α) → List (Tree K α)
  | [] => []
  | t :: ts => unmarked t :: unmarkedAll ts

end

/-- **The part of a tree at a path**, which names a child at each step down. -/
def at? : Tree K α → List Nat → Option (Tree K α)
  | t, [] => some t
  | t, i :: path => t.children[i]?.bind (·.at? path)

theorem unmarkedAll_eq_map (ts : List (Tree K α)) :
    unmarkedAll ts = ts.map unmarked := by
  induction ts with
  | nil => rfl
  | cons t ts ih => rw [unmarkedAll, ih, List.map_cons]

mutual

/-- Taking off marks changes labels and marks. -/
theorem unmarked_eq_map :
    (t : Tree K α) → t.unmarked = t.map Label.unmarked id fun _ => false
  | leaf .. => rfl
  | node _ cs => congrArg (node _) (unmarkedAll_eq_mapAll cs)

theorem unmarkedAll_eq_mapAll :
    (ts : List (Tree K α)) →
      unmarkedAll ts = mapAll Label.unmarked id (fun _ => false) ts
  | [] => rfl
  | t :: ts => by
    rw [unmarkedAll, mapAll, unmarked_eq_map t, unmarkedAll_eq_mapAll ts]

end

/-- Marks do not change the shape: the part at a path is the part without marks. -/
theorem at?_unmarked (t : Tree K α) (path : List Nat) :
    t.unmarked.at? path = (t.at? path).map unmarked := by
  induction path generalizing t with
  | nil => rfl
  | cons i path ih =>
    have hchildren : t.unmarked.children = t.children.map unmarked := by
      cases t with
      | leaf => rfl
      | node l cs => exact unmarkedAll_eq_map cs
    rw [at?, at?, hchildren, List.getElem?_map]
    cases t.children[i]? with
    | none => rfl
    | some child => exact ih child

/-- What holds of all nodes of a tree holds of all nodes of its parts. -/
theorem AllNodes.at? {P : Label K α → List (Tree K α) → Prop} {t u : Tree K α}
    (h : t.AllNodes P) {path : List Nat} (hu : t.at? path = some u) :
    u.AllNodes P := by
  induction path generalizing t with
  | nil =>
    obtain rfl := Option.some.inj hu
    exact h
  | cons i path ih =>
    obtain ⟨child, hchild, hu⟩ := Option.bind_eq_some_iff.mp hu
    refine ih ?_ hu
    cases h with
    | leaf => cases hchild
    | node _ hcs => exact hcs child (List.mem_of_getElem? hchild)

/-- The value of an option: it is there if it has children. -/
theorem value_optional {l : Label K α} {cs : List (Tree K α)}
    {vs : List (Value K α)} (hkind : l.kind = .optional)
    (hvs : liveValues cs = .ok vs) :
    (node l cs).value =
      .ok (.optional (if cs.isEmpty then none else some (contentOf vs))) := by
  cases cs <;> simp [value, hvs, nodeValue, hkind]

/-- **Two trees have the same options**: where a part of both is an option, both
parts have a value, and it is missing in both or in none. -/
def SameOptions (t t' : Tree K α) : Prop :=
  ∀ path l cs l' cs', t.at? path = some (.node l cs) →
    t'.at? path = some (.node l' cs') → l.kind = .optional →
    ∃ content content', (node l cs).value = .ok (.optional content) ∧
      (node l' cs').value = .ok (.optional content') ∧
      (content = none ↔ content' = none)

/-- All options of a tree have values for what they match. -/
def HasOptions (t : Tree K α) : Prop :=
  t.AllNodes fun l cs => l.kind = .optional → ∃ vs, liveValues cs = .ok vs

/-- **Whether an option was there does not hang on marks.** -/
theorem sameOptions_of_unmarked_eq {t t' : Tree K α}
    (h : t.unmarked = t'.unmarked) (ht : t.HasOptions) (ht' : t'.HasOptions) :
    t.SameOptions t' := by
  intro path l cs l' cs' hat hat' hkind
  have hparts : node l.unmarked (unmarkedAll cs) =
      node l'.unmarked (unmarkedAll cs') := by
    have hpart := at?_unmarked t path
    rw [h, at?_unmarked, hat, hat'] at hpart
    exact (Option.some.inj hpart).symm
  obtain ⟨hlabel, hchildren⟩ := Tree.node.injEq .. ▸ hparts
  have hkind' : l'.kind = .optional :=
    (congrArg Label.kind hlabel).symm.trans hkind
  have hempty : cs.isEmpty = cs'.isEmpty := by
    rw [unmarkedAll_eq_map, unmarkedAll_eq_map] at hchildren
    simpa using congrArg List.isEmpty hchildren
  obtain ⟨vs, hvs⟩ : ∃ vs, liveValues cs = .ok vs := by
    cases AllNodes.at? ht hat with
    | node hP _ => exact hP hkind
  obtain ⟨vs', hvs'⟩ : ∃ vs, liveValues cs' = .ok vs := by
    cases AllNodes.at? ht' hat' with
    | node hP _ => exact hP hkind'
  refine ⟨_, _, value_optional hkind hvs, value_optional hkind' hvs', ?_⟩
  rw [hempty]
  cases cs'.isEmpty <;> simp

end Tree

end Descent
