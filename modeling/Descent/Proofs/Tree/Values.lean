import Descent.Matching.Matcher
import Descent.Proofs.Tree.Nodes

/-!
# What callbacks are shown of a tree

A callback is shown the values of the children that are not discarded
(`Tree.liveValues`). A tree that is not discarded adds its value to those of the
others, a node with a callback is an output, and the nodes of repetitions and
options are lists and optional values.
-/

namespace Descent.Tree

variable {K α : Type}

open Matcher (clauseTree)

/-- A tree that is not discarded adds its value to those of the others. -/
theorem liveValues_cons {t : Tree K α} {v : Value K α} {ts : List (Tree K α)}
    {vs : List (Value K α)} (hd : t.isDiscarded = false) (hv : t.value = .ok v)
    (hts : liveValues ts = .ok vs) : liveValues (t :: ts) = .ok (v :: vs) := by
  simp [liveValues, hd, hv, hts]

/-- Where all of some lists of trees have values, all their trees have. -/
theorem exists_liveValues_flatten {tss : List (List (Tree K α))}
    (h : ∀ ts ∈ tss, ∃ vs, liveValues ts = .ok vs) :
    ∃ vs, liveValues tss.flatten = .ok vs := by
  induction tss with
  | nil => exact ⟨[], rfl⟩
  | cons ts tss ih =>
    obtain ⟨⟨vs, hvs⟩, hrest⟩ := List.forall_mem_cons.mp h
    obtain ⟨ws, hws⟩ := ih hrest
    exact ⟨vs ++ ws, liveValues_append hvs hws⟩

/-- A node with a callback that uses it is the output of that callback. -/
theorem value_node {l : Label K α} {cs : List (Tree K α)}
    {vs : List (Value K α)} {f : Callback K α}
    (hkind : l.kind = .rule ∨ l.kind = .expression) (hf : l.callback = some f)
    (hvs : liveValues cs = .ok vs) : (node l cs).value = .ok (.out (f vs)) := by
  rcases hkind with hkind | hkind <;>
    simp [value, hvs, nodeValue, hkind, hf]

/-- The discard mark of a tree does not change its value. -/
@[simp] theorem value_setDiscarded (d : Bool) (t : Tree K α) :
    (t.setDiscarded d).value = t.value := by
  cases t with
  | leaf => rfl
  | node l cs => simp only [setDiscarded, value, nodeValue]

/-! ## Repetitions and options -/

variable [TokenKind K] {c : Clause K} {ts : List (Tree K α)}
  {vs : List (Value K α)}

/-- The node of a repetition is shown as the list of its values. -/
theorem liveValues_many (h : liveValues ts = .ok vs) :
    liveValues [clauseTree c .many ts] = .ok [.list vs] :=
  liveValues_cons rfl (by simp [clauseTree, value, h, nodeValue, Label.bare]) rfl

/-- The node of an option is shown as what is there if it has children. -/
theorem liveValues_optional (h : liveValues ts = .ok vs) (hne : ts ≠ []) :
    liveValues [clauseTree c .optional ts] =
      .ok [.optional (some (contentOf vs))] :=
  liveValues_cons rfl
    (by simp [clauseTree, value, h, nodeValue, Label.bare, hne]) rfl

/-- The node of an option without children is shown as missing. -/
theorem liveValues_optional_nil :
    liveValues [(clauseTree c .optional [] : Tree K α)] =
      .ok [.optional none] := rfl

end Descent.Tree
