import Mathlib.Data.List.TakeWhile
import Descent.Proofs.Tree.Live
import Descent.Proofs.Tree.LiveFold
import Descent.Script

/-!
# The calls of a reduction

What a callback does beside making an output is not seen in the value of a tree.
`Tree.calling` reduces a tree and notes the calls of callbacks on the way. They are
calls of live callbacks, in order and each once (`Tree.pairwise_calling`,
`Tree.live_of_mem_calling`), and if the tree has a value they are those of all live
callbacks (`Tree.exists_mem_calling`).

Reduction sees the live part of a tree and nothing else
(`Tree.reduction_sees_live_part`): it fails at the first live node that lacks its
callback; otherwise it folds the live part and calls each live callback once.
-/

namespace Descent

variable {K α : Type}

namespace Tree

/-! ## The calls of a reduction -/

/-- **A call of a callback**: the path to its node, and the values it is given. -/
structure Call (K α : Type) where
  /-- The path. -/
  path : List Nat
  /-- The values. -/
  values : List (Value K α)

/-- A call in a child, as one in the tree whose child at a place it is. -/
def Call.inChild (i : Nat) (c : Call K α) : Call K α := { c with path := i :: c.path }

/-- The call that the value of a node takes, if it takes one. -/
def nodeCalls (l : Label K α) (values : List (Value K α)) : List (Call K α) :=
  if l.isCaller && l.callback.isSome then [⟨[], values⟩] else []

mutual

/-- **The value of a tree with the calls of callbacks** on the way to it. -/
def calling : Tree K α → Except MissingCallback (Value K α) × List (Call K α)
  | leaf t _ => (.ok (.token t), [])
  | node l cs =>
    match callingAll 0 cs with
    | (.error e, calls) => (.error e, calls)
    | (.ok values, calls) =>
      (nodeValue l (!cs.isEmpty) values, calls ++ nodeCalls l values)

/-- The values of some children that are not discarded, the first of which stands at
a place, with the calls on the way to them. -/
def callingAll (i : Nat) :
    List (Tree K α) → Except MissingCallback (List (Value K α)) × List (Call K α)
  | [] => (.ok [], [])
  | t :: ts =>
    if t.isDiscarded then callingAll (i + 1) ts
    else
      match calling t with
      | (.error e, calls) => (.error e, calls.map (Call.inChild i))
      | (.ok v, calls) =>
        match callingAll (i + 1) ts with
        | (.error e, more) => (.error e, calls.map (Call.inChild i) ++ more)
        | (.ok vs, more) => (.ok (v :: vs), calls.map (Call.inChild i) ++ more)

end

mutual

/-- Noting the calls does not change the value. -/
theorem fst_calling : (t : Tree K α) → t.calling.1 = t.value
  | leaf .. => rfl
  | node l cs => by
    rw [calling, value, ← fst_callingAll 0 cs]
    obtain ⟨_ | values, calls⟩ := callingAll 0 cs <;> rfl

theorem fst_callingAll (i : Nat) :
    (ts : List (Tree K α)) → (callingAll i ts).1 = liveValues ts
  | [] => rfl
  | t :: ts => by
    rw [callingAll, liveValues, ← fst_calling t, ← fst_callingAll (i + 1) ts]
    cases t.isDiscarded with
    | true => rfl
    | false =>
      obtain ⟨_ | v, calls⟩ := t.calling
      · rfl
      · obtain ⟨_ | vs, more⟩ := callingAll (i + 1) ts <;> rfl

end

/-- The call at a node, if there is one. -/
def Spot.call? (s : Spot K α) : Option (Call K α) :=
  match liveValues s.children with
  | .ok values =>
    if s.label.isCaller && s.label.callback.isSome then some ⟨s.path, values⟩ else none
  | .error _ => none

theorem Spot.call?_inChild (i : Nat) (s : Spot K α) :
    (s.inChild i).call? = s.call?.map (Call.inChild i) := by
  unfold call? inChild
  cases liveValues s.children with
  | error e => rfl
  | ok values => cases s.label.isCaller && s.label.callback.isSome <;> rfl

/-- The nodes of a list up to the first that lacks its callback. -/
def reached (ss : List (Spot K α)) : List (Spot K α) :=
  ss.takeWhile (!·.lacksCallback)

/-- What comes after some nodes is reached if none of them lacks its callback. -/
theorem reached_append (ss ss' : List (Spot K α)) :
    reached (ss ++ ss') =
      reached ss ++ if firstMissing? ss = none then reached ss' else [] := by
  induction ss with
  | nil => rfl
  | cons s ss ih =>
    rw [reached] at ih
    cases hs : s.lacksCallback <;>
      simp [reached, firstMissing?, hs, ih]

theorem reached_map_inChild (i : Nat) (ss : List (Spot K α)) :
    reached (ss.map (Spot.inChild i)) = (reached ss).map (Spot.inChild i) := by
  rw [reached, List.takeWhile_map]
  rfl

/-- The calls at the nodes of a child. -/
theorem filterMap_call?_inChild (i : Nat) (ss : List (Spot K α)) :
    (ss.map (Spot.inChild i)).filterMap Spot.call? =
      (ss.filterMap Spot.call?).map (Call.inChild i) := by
  rw [List.filterMap_map, List.map_filterMap]
  exact List.filterMap_congr fun s _ => s.call?_inChild i

/-- A node whose children have values is called if it is reached. -/
theorem filterMap_call?_root {l : Label K α} {cs : List (Tree K α)}
    {values : List (Value K α)} (h : liveValues cs = .ok values) :
    (reached [⟨[], l, cs⟩]).filterMap Spot.call? = nodeCalls l values := by
  unfold reached nodeCalls
  cases hcaller : l.isCaller <;> cases hcallback : l.callback <;>
    simp [Spot.lacksCallback, Label.lacksCallback, Spot.call?, hcaller, hcallback, h]

mutual

/-- **The calls are at the live nodes that are reached**, in order. -/
theorem snd_calling :
    (t : Tree K α) → t.calling.2 = (reached t.liveNodes).filterMap Spot.call?
  | leaf .. => rfl
  | node l cs => by
    have hvalues := fst_callingAll 0 cs
    have hcalls := snd_callingAll 0 cs
    rw [calling, liveNodes, reached_append, List.filterMap_append, ← hcalls,
      ← missing?_liveValues]
    rw [← hvalues]
    cases hrun : callingAll 0 cs with
    | mk answer calls =>
      rw [hrun] at hvalues
      cases answer with
      | error e => simp [missing?]
      | ok values =>
        exact congrArg (calls ++ ·) (filterMap_call?_root hvalues.symm).symm

theorem snd_callingAll (i : Nat) :
    (ts : List (Tree K α)) →
      (callingAll i ts).2 = (reached (liveNodesAll i ts)).filterMap Spot.call?
  | [] => rfl
  | t :: ts => by
    have hvalue := fst_calling t
    have hcalls := snd_calling t
    have hmore := snd_callingAll (i + 1) ts
    rw [callingAll, liveNodesAll]
    cases t.isDiscarded with
    | true => exact hmore
    | false =>
      simp only [Bool.false_eq_true, if_false]
      rw [reached_append, List.filterMap_append, firstMissing?_map_inChild,
        reached_map_inChild, filterMap_call?_inChild, ← hcalls, ← missing?_value, ← hvalue]
      cases t.calling with
      | mk answer calls =>
        cases answer with
        | error e => simp [missing?]
        | ok v =>
          simp only [missing?, if_true, ← hmore]
          cases callingAll (i + 1) ts with
          | mk answer' more => cases answer' <;> rfl

end

theorem Spot.call?_eq_some_iff {s : Spot K α} {call : Call K α} :
    s.call? = some call ↔
      s.label.isCaller = true ∧ (∃ f, s.label.callback = some f) ∧
        call.path = s.path ∧ liveValues s.children = .ok call.values := by
  obtain ⟨path, values⟩ := call
  unfold call?
  cases liveValues s.children with
  | error e => simp
  | ok vs =>
    cases s.label.isCaller <;> cases s.label.callback <;> simp [eq_comm]

/-- **Calls come in order**, so no node is called twice. -/
theorem pairwise_calling (t : Tree K α) :
    t.calling.2.Pairwise fun c c' => Before c.path c'.path := by
  rw [snd_calling]
  refine List.Pairwise.filterMap Spot.call? ?_
    (t.pairwise_liveNodes.sublist (List.takeWhile_sublist _))
  intro s s' hbefore c hc c' hc'
  rwa [(Spot.call?_eq_some_iff.mp hc).2.2.1, (Spot.call?_eq_some_iff.mp hc').2.2.1]

/-- **What is called is a live callback**, and it is given the values of the live
children. -/
theorem live_of_mem_calling {t : Tree K α} {call : Call K α} (h : call ∈ t.calling.2) :
    ∃ l cs f, t.Live call.path (node l cs) ∧ l.isCaller = true ∧ l.callback = some f ∧
      List.Forall₂ (fun c v => c.value = .ok v) (liveChildren cs) call.values := by
  rw [snd_calling] at h
  obtain ⟨s, hs, hcall⟩ := List.mem_filterMap.mp h
  obtain ⟨hcaller, ⟨f, hf⟩, hpath, hvalues⟩ := Spot.call?_eq_some_iff.mp hcall
  have hlive := (mem_liveNodes_iff s t).mp ((List.takeWhile_sublist _).mem hs)
  exact ⟨s.label, s.children, f, hpath ▸ hlive, hcaller, hf,
    liveValues_eq_ok_iff.mp hvalues⟩

/-- A live part of a live part is live. -/
theorem Live.trans {t u v : Tree K α} {path path' : List Nat} (h : t.Live path u)
    (h' : u.Live path' v) : t.Live (path ++ path') v := by
  induction h with
  | root => exact h'
  | child hc hd _ ih => exact .child hc hd (ih h')

/-- The live parts of a tree that has a value have values. -/
theorem Live.exists_value {t u : Tree K α} {path : List Nat} (h : t.Live path u)
    (ht : ∃ v, t.value = .ok v) : ∃ v, u.value = .ok v := by
  cases hu : u.value with
  | ok v => exact ⟨v, rfl⟩
  | error e =>
    obtain ⟨path', l, cs, hlive, hlacks⟩ := exists_value_eq_error_iff.mp ⟨e, hu⟩
    obtain ⟨e', he⟩ := exists_value_eq_error_iff.mpr ⟨_, l, cs, h.trans hlive, hlacks⟩
    obtain ⟨v, hv⟩ := ht
    cases he.symm.trans hv

/-- **Every live callback is called** if the tree has a value. -/
theorem exists_mem_calling {t : Tree K α} (ht : ∃ v, t.value = .ok v)
    {path : List Nat} {l : Label K α} {cs : List (Tree K α)}
    (h : t.Live path (node l cs)) (hcaller : l.isCaller = true) :
    ∃ call ∈ t.calling.2, call.path = path := by
  have hnone : ∀ s ∈ t.liveNodes, s.lacksCallback = false := fun s hs => by
    rw [← Bool.not_eq_true]
    intro hlacks
    obtain ⟨e, he⟩ := exists_value_eq_error_iff.mpr
      ⟨_, _, _, (mem_liveNodes_iff s t).mp hs, hlacks⟩
    obtain ⟨v, hv⟩ := ht
    cases he.symm.trans hv
  have hall : reached t.liveNodes = t.liveNodes :=
    List.takeWhile_eq_self_iff.mpr fun s hs => by rw [hnone s hs]; rfl
  have hmem := (mem_liveNodes_iff ⟨path, l, cs⟩ t).mpr h
  obtain ⟨v, hv⟩ := h.exists_value ht
  obtain ⟨values, hvalues, -⟩ := value_node_eq_ok_iff.mp hv
  have hcallback : ∃ f, l.callback = some f := by
    have hlacks := hnone _ hmem
    simp only [Spot.lacksCallback, Label.lacksCallback, hcaller, Bool.true_and] at hlacks
    exact Option.isSome_iff_exists.mp (by simpa using hlacks)
  refine ⟨⟨path, values⟩, ?_, rfl⟩
  rw [snd_calling, hall, List.mem_filterMap]
  exact ⟨_, hmem, Spot.call?_eq_some_iff.mpr ⟨hcaller, hcallback, rfl, hvalues⟩⟩

/-- **Reduction sees the live part of a tree** and nothing else.

The value of a tree is missing exactly if a live node lacks its callback, and then the
first such node is named. Otherwise it is the fold of the live part. The callbacks
that are called on the way are live, each is called once and in order with the values
of the children that are not discarded, and if there is a value all live ones are
called. Replacing a discarded child by another makes no difference. The output is the
value if a callback makes it at the root; if there is another value, what is missing
is the root. -/
theorem reduction_sees_live_part (t : Tree K α) :
    ((∃ e, t.value = .error e) ↔
        ∃ path l cs, t.Live path (node l cs) ∧ l.lacksCallback = true) ∧
      (∀ e, t.value = .error e ↔
        ∃ path l cs, t.IsFirstMissing path l cs ∧ e = ⟨l.name⟩) ∧
      (∀ v, t.value = .ok v ↔ t.Folds v) ∧
      (t.calling.1 = t.value ∧
        t.calling.2.Pairwise (fun c c' => Before c.path c'.path) ∧
        (∀ call ∈ t.calling.2, ∃ l cs f, t.Live call.path (node l cs) ∧
          l.isCaller = true ∧ l.callback = some f ∧
          List.Forall₂ (fun c v => c.value = .ok v) (liveChildren cs) call.values) ∧
        ((∃ v, t.value = .ok v) → ∀ path l cs, t.Live path (node l cs) →
          l.isCaller = true → ∃ call ∈ t.calling.2, call.path = path)) ∧
      (∀ path c u, path ≠ [] → t.at? path = some c → c.isDiscarded = true →
        u.isDiscarded = true →
        (t.replaceAt path u).value = t.value ∧ (t.replaceAt path u).reduce = t.reduce) ∧
      (∀ x, t.reduce = .ok x ↔ t.value = .ok (.out x)) ∧
      (∀ e, t.reduce = .error e ↔
        t.value = .error e ∨
          (∃ v, t.value = .ok v) ∧ t.isOutput = false ∧ e = ⟨"<root>"⟩) := by
  refine ⟨exists_value_eq_error_iff, fun _ => value_eq_error_iff,
    fun v => (folds_iff t v).symm,
    ⟨t.fst_calling, t.pairwise_calling, fun _ => live_of_mem_calling,
      fun ht path l cs => exists_mem_calling ht⟩, fun path c u hne hc hd hu => ?_,
    fun _ => reduce_eq_ok_iff, fun _ => reduce_eq_error_iff⟩
  have hvalue := (replaceAt_discarded hd hu hc).2 hne
  exact ⟨hvalue, by rw [reduce, hvalue, reduce]⟩

end Tree

namespace Script

/-- A rule over a discarded rule without callback and a repetition of one rule. -/
def halfLive : Tree ScriptKind Nat :=
  .node (.rule "a" List.length)
    [.node ⟨"x", .rule, none, none, true⟩ [],
      .node (.bare "b*" .many)
        [.node (.rule "b" List.length)
          [.leaf (.unplaced .num "1") false, .leaf (.unplaced .semi ";") true]]]

/-- The discarded rule is not missed, and can be replaced by a sign. The callback of
the other rule is called first. -/
theorem halfLive_reduce :
    halfLive.reduce = .ok 1 ∧ halfLive.calling.2.map (·.path) = [[1, 0], []] ∧
      (halfLive.replaceAt [0] (.leaf (.unplaced .semi ";") true)).reduce = .ok 1 := by
  have hreduce : halfLive.reduce = .ok 1 := by rfl
  have hreplace := (Tree.reduction_sees_live_part halfLive).2.2.2.2.1 [0]
    (.node ⟨"x", .rule, none, none, true⟩ []) (.leaf (.unplaced .semi ";") true)
    (List.cons_ne_nil _ _) rfl rfl rfl
  exact ⟨hreduce, by rfl, hreplace.2.trans hreduce⟩

end Script

end Descent
