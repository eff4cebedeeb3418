import Descent.Tree.Reduction

/-!
# Every node of a tree

`Tree.AllNodes` says something of every node of a tree. It is what a walk over
the nodes finds, and what a reduction can rely on: a property of outputs that
the callbacks of all nodes keep holds of the output of the tree
(`Tree.AllNodes.of_reduce`).
-/

namespace Descent

variable {K α : Type}

namespace Tree

/-- **Something holds of every node of a tree**, given its label and its
children. -/
inductive AllNodes (P : Label K α → List (Tree K α) → Prop) : Tree K α → Prop
  /-- A token has no node. -/
  | leaf {t : Token K} {d : Bool} : AllNodes P (.leaf t d)
  /-- A node, and the nodes below it. -/
  | node {l : Label K α} {cs : List (Tree K α)} :
      P l cs → (∀ c ∈ cs, AllNodes P c) → AllNodes P (.node l cs)

variable {P : Label K α → List (Tree K α) → Prop}

theorem nodesOfAll_eq_flatMap (d : Nat) (ts : List (Tree K α)) :
    nodesOfAll d ts = ts.flatMap (nodesFrom d) := by
  induction ts with
  | nil => rfl
  | cons t ts ih => rw [nodesOfAll, ih, List.flatMap_cons]

/-- The walk over the nodes finds no other. -/
theorem AllNodes.of_mem_nodesFrom {t : Tree K α} (h : t.AllNodes P) {d e : Nat}
    {l : Label K α} {cs : List (Tree K α)}
    (hmem : (.node l cs, e) ∈ t.nodesFrom d) : P l cs := by
  induction h generalizing d with
  | leaf => exact absurd hmem List.not_mem_nil
  | node hP _ ih =>
    rw [nodesFrom, nodesOfAll_eq_flatMap] at hmem
    rcases List.mem_cons.mp hmem with heq | hmem
    · obtain ⟨⟨rfl, rfl⟩, _⟩ := Prod.mk.injEq .. ▸ heq
      exact hP
    · obtain ⟨c, hc, hmem⟩ := List.mem_flatMap.mp hmem
      exact ih c hc hmem

/-- Setting the discard mark changes the label of the root alone. -/
theorem AllNodes.setDiscarded {t : Tree K α} {d : Bool} (h : t.AllNodes P)
    (hP : ∀ l cs, P l cs → P { l with discarded := d } cs) :
    (t.setDiscarded d).AllNodes P := by
  cases h with
  | leaf => exact .leaf
  | node h hcs => exact .node (hP _ _ h) hcs

/-- What holds of the nodes may be weakened. -/
theorem AllNodes.imp {P' : Label K α → List (Tree K α) → Prop} {t : Tree K α}
    (h : t.AllNodes P) (hP : ∀ l cs, P l cs → P' l cs) : t.AllNodes P' := by
  induction h with
  | leaf => exact .leaf
  | node h _ ih => exact .node (hP _ _ h) ih

end Tree

/-! ## What callbacks keep -/

/-- **All outputs in a value have a property.** -/
inductive Value.All (P : α → Prop) : Value K α → Prop
  /-- A token holds no output. -/
  | token {t : Token K} : All P (.token t)
  /-- An output with the property. -/
  | out {x : α} : P x → All P (.out x)
  /-- The outputs in all items. -/
  | list {vs : List (Value K α)} : (∀ v ∈ vs, All P v) → All P (.list vs)
  /-- What is missing holds no output. -/
  | missing : All P (.optional none)
  /-- The outputs in what is there. -/
  | there {v : Value K α} : All P v → All P (.optional (some v))

/-- **A callback keeps a property of outputs**: it makes an output with the
property from values whose outputs have it. -/
def Callback.Keeps (P : α → Prop) (f : Callback K α) : Prop :=
  ∀ vs : List (Value K α), (∀ v ∈ vs, v.All P) → P (f vs)

namespace Tree

/-- A node whose callback, if it has one and uses it, keeps a property. -/
def CallbackKeeps (P : α → Prop) (l : Label K α) (_ : List (Tree K α)) : Prop :=
  l.kind = .rule ∨ l.kind = .expression →
    ∀ f, l.callback = some f → Callback.Keeps P f

variable {P : α → Prop}

/-- What an option gives has the property if what it matched has. -/
theorem all_contentOf {values : List (Value K α)}
    (h : ∀ v ∈ values, v.All P) : (contentOf values).All P := by
  unfold contentOf
  split
  · exact h _ List.mem_cons_self
  · exact .list h

/-- The value of a node has the property if those of its children do. -/
theorem all_nodeValue {l : Label K α} {cs : List (Tree K α)}
    (hl : CallbackKeeps P l cs) {matched : Bool} {values : List (Value K α)}
    (hvalues : ∀ v ∈ values, v.All P) {v : Value K α}
    (h : nodeValue l matched values = .ok v) : v.All P := by
  unfold nodeValue at h
  split at h
  · next hkind =>
    split at h
    · next f hf =>
      obtain rfl := Except.ok.inj h
      exact .out (hl (.inl hkind) f hf values hvalues)
    · cases h
  · next hkind =>
    split at h
    · next f hf =>
      obtain rfl := Except.ok.inj h
      exact .out (hl (.inr hkind) f hf values hvalues)
    · cases h
  · obtain rfl := Except.ok.inj h
    exact .list hvalues
  · obtain rfl := Except.ok.inj h
    exact .list hvalues
  · obtain rfl := Except.ok.inj h
    cases matched with
    | false => exact .missing
    | true => exact .there (all_contentOf hvalues)

/-- The values of some trees have the property if each tree's value has. -/
theorem all_liveValues {ts : List (Tree K α)}
    (ih : ∀ t ∈ ts, ∀ v, t.value = .ok v → v.All P) {values : List (Value K α)}
    (h : liveValues ts = .ok values) : ∀ v ∈ values, v.All P := by
  induction ts generalizing values with
  | nil =>
    obtain rfl := Except.ok.inj h
    exact fun _ h => absurd h List.not_mem_nil
  | cons t ts iht =>
    obtain ⟨ht, hts⟩ := List.forall_mem_cons.mp ih
    rw [liveValues] at h
    split at h
    · exact iht hts h
    · split at h
      · cases h
      · next v hv =>
        split at h
        · cases h
        · next vs hvs =>
          obtain rfl := Except.ok.inj h
          exact List.forall_mem_cons.mpr ⟨ht v hv, iht hts hvs⟩

/-- The values of one list of trees and then of another. -/
theorem liveValues_append {ts us : List (Tree K α)} {vs ws : List (Value K α)}
    (hts : liveValues ts = .ok vs) (hus : liveValues us = .ok ws) :
    liveValues (ts ++ us) = .ok (vs ++ ws) := by
  induction ts generalizing vs with
  | nil =>
    obtain rfl := Except.ok.inj hts
    exact hus
  | cons t ts ih =>
    rw [liveValues] at hts
    rw [List.cons_append, liveValues]
    split at hts
    · next hd =>
      rw [if_pos hd]
      exact ih hts
    · next hd =>
      rw [if_neg hd]
      cases hv : t.value with
      | error e => simp [hv] at hts
      | ok v =>
        cases hvs : liveValues ts with
        | error e => simp [hv, hvs] at hts
        | ok vs' =>
          simp only [hv, hvs, Except.ok.injEq] at hts
          subst hts
          simp [ih hvs]

/-- **The value of a tree has every property that its callbacks keep.** -/
theorem AllNodes.all_value {t : Tree K α} (h : t.AllNodes (CallbackKeeps P))
    {v : Value K α} (hv : t.value = .ok v) : v.All P := by
  induction h generalizing v with
  | leaf =>
    rw [value] at hv
    obtain rfl := Except.ok.inj hv
    exact .token
  | node hl _ ih =>
    rw [value] at hv
    split at hv
    · cases hv
    · next values hvalues =>
      exact all_nodeValue hl
        (all_liveValues (fun c hc v hv => ih c hc hv) hvalues) hv

/-- **What all callbacks keep holds of the output.** -/
theorem AllNodes.of_reduce {t : Tree K α} (h : t.AllNodes (CallbackKeeps P))
    {x : α} (hx : t.reduce = .ok x) : P x := by
  unfold reduce at hx
  split at hx
  · cases hx
  · next y hy =>
    obtain rfl := Except.ok.inj hx
    cases h.all_value hy with
    | out h => exact h
  · cases hx

end Tree

end Descent
