import Descent.Grammar.Indexed
import Descent.Proofs.Grammar.References
import Mathlib.Data.List.Induction

/-!
# What additions make

However rules and operators are added, and in whatever order, a grammar has one entry
for each name that something was added to, in the order of first additions. The entry
has the rules that were added to the name, and the operators, in the order in which
they were added (`Grammar.nonTerminals_ofAdditions`).

An indexed grammar has the same entries in its slots, and its index leads from each
name to the slot of its entry (`IndexedGrammar.InStep`). So all ways of looking up a
name agree.
-/

namespace Descent

variable {K α : Type}

/-! ## Changes at names -/

namespace Grammar

variable {x : String}

/-- **A change at a name**, where the entries are a function of their names: the entry
of the name is changed, or is added at the end. -/
theorem update_map {f : NonTerminal K α → NonTerminal K α}
    {entry : String → NonTerminal K α} (hname : ∀ y, (entry y).name = y)
    {names : List String} (hnodup : names.Nodup)
    (hbare : x ∉ names → entry x = .bare x) :
    update x f (names.map entry) =
      (if x ∈ names then names else names ++ [x]).map fun y =>
        if y = x then f (entry y) else entry y := by
  induction names with
  | nil => simp [update, hbare]
  | cons y names ih =>
    obtain ⟨hy, hnodup⟩ := List.nodup_cons.mp hnodup
    rw [List.map_cons, update, hname]
    by_cases h : y = x
    · have hrest : names.map (fun z => if z = x then f (entry z) else entry z) =
          names.map entry := by
        refine List.map_congr_left fun z hz => if_neg ?_
        rintro rfl
        exact hy (h ▸ hz)
      simp [h, hrest]
    · have h' : x ≠ y := Ne.symm h
      rw [if_neg h, ih hnodup fun hx => hbare (by simp [h', hx])]
      by_cases hx : x ∈ names <;> simp [h, h', hx]

theorem update_update {f f' : NonTerminal K α → NonTerminal K α}
    (hf : ∀ n, (f n).name = n.name) (ns : List (NonTerminal K α)) :
    update x f' (update x f ns) =
      update x (fun n => f' (f n)) ns := by
  induction ns with
  | nil => simp [update, hf, NonTerminal.bare]
  | cons n ns ih =>
    by_cases h : n.name = x
    · simp [update, hf, h]
    · simp [update, h, ih]

/-- Grammars of one start and the same entries are the same. -/
theorem ext_of_nonTerminals {g g' : Grammar K α} (hstart : g.start = g'.start)
    (hentries : g.nonTerminals = g'.nonTerminals) : g = g' := by
  cases g
  cases g'
  subst hstart hentries
  rfl

end Grammar

/-! ## What is added to a name -/

namespace Addition

theorem name_change (a : Addition K α) (n : NonTerminal K α) :
    (a.change n).name = n.name := by
  cases a <;> rfl

/-- The rule that is added, if it is one for a name. -/
def ruleFor? (x : String) : Addition K α → Option (Rule K α)
  | rule y r => if x = y then some r else none
  | operator .. => none

/-- The operator that is added, if it is one for a name. -/
def operatorFor? (x : String) : Addition K α → Option (Operator K α)
  | rule .. => none
  | operator y o => if x = y then some o else none

/-- **All that additions add to a name**, in the order in which it is added. -/
def entryOf (as : List (Addition K α)) (x : String) : NonTerminal K α :=
  ⟨x, as.filterMap (ruleFor? x), as.filterMap (operatorFor? x)⟩

/-- The names that something is added to, in the order of first additions. -/
def headsOf (as : List (Addition K α)) : List String := (as.map head).eraseDups

theorem headsOf_concat (as : List (Addition K α)) (a : Addition K α) :
    headsOf (as ++ [a]) =
      if a.head ∈ headsOf as then headsOf as else headsOf as ++ [a.head] := by
  rw [headsOf, List.map_append, List.map_singleton, eraseDups_concat]
  rfl

theorem entryOf_concat (as : List (Addition K α)) (a : Addition K α) (x : String) :
    entryOf (as ++ [a]) x =
      if x = a.head then a.change (entryOf as x) else entryOf as x := by
  cases a with
  | rule y r =>
    by_cases h : x = y <;>
      simp [entryOf, ruleFor?, operatorFor?, head, change, NonTerminal.withRule, h]
  | operator y o =>
    by_cases h : x = y <;>
      simp [entryOf, ruleFor?, operatorFor?, head, change, NonTerminal.withOperator, h]

theorem entryOf_of_not_mem {as : List (Addition K α)} {x : String}
    (h : x ∉ headsOf as) : entryOf as x = .bare x := by
  have hhead : ∀ a ∈ as, x ≠ a.head := by
    rintro a ha rfl
    exact h (List.mem_eraseDups.mpr (List.mem_map_of_mem ha))
  have hrules : as.filterMap (ruleFor? x) = [] :=
    List.filterMap_eq_nil_iff.mpr fun a ha => by
      cases a with
      | rule => exact if_neg (hhead _ ha)
      | operator => rfl
  have hoperators : as.filterMap (operatorFor? x) = [] :=
    List.filterMap_eq_nil_iff.mpr fun a ha => by
      cases a with
      | rule => rfl
      | operator => exact if_neg (hhead _ ha)
  rw [entryOf, hrules, hoperators]
  rfl

end Addition

open Addition (headsOf entryOf)

namespace Grammar

theorem nonTerminals_add (g : Grammar K α) (a : Addition K α) :
    (g.add a).nonTerminals = update a.head a.change g.nonTerminals := by
  cases a <;> rfl

theorem ofAdditions_concat (start : String) (as : List (Addition K α))
    (a : Addition K α) : ofAdditions start (as ++ [a]) = (ofAdditions start as).add a := by
  rw [ofAdditions, List.foldl_append]
  rfl

/-- **The entries that additions make**: one for each name that something is added to,
with all that is added to it. -/
theorem nonTerminals_ofAdditions (start : String) (as : List (Addition K α)) :
    (ofAdditions start as).nonTerminals = (headsOf as).map (entryOf as) := by
  induction as using List.reverseRecOn with
  | nil => rfl
  | append_singleton as a ih =>
    have hnodup : (headsOf as).Nodup := nodup_eraseDups _
    rw [ofAdditions_concat, nonTerminals_add, ih,
      update_map (fun _ => rfl) hnodup Addition.entryOf_of_not_mem,
      Addition.headsOf_concat]
    exact List.map_congr_left fun y _ => (Addition.entryOf_concat as a y).symm

end Grammar

/-! ## The name index -/

namespace Grammar

variable {x : String} {f : NonTerminal K α → NonTerminal K α}

/-- A name has a place if it is declared. -/
theorem isSome_indexOf? (g : Grammar K α) (x : String) :
    (g.indexOf? x).isSome = g.contains x :=
  List.findIdx?_isSome

/-- A change at a name that has an entry is a change of that entry. -/
theorem update_eq_modify {ns : List (NonTerminal K α)} {i : Nat}
    (h : ns.findIdx? (·.name == x) = some i) : update x f ns = ns.modify i f := by
  induction ns generalizing i with
  | nil => cases h
  | cons n ns ih =>
    rw [List.findIdx?_cons] at h
    by_cases hn : n.name = x
    · simp only [hn, beq_self_eq_true, if_true, Option.some.injEq] at h
      subst h
      rw [update, if_pos hn, List.modify_zero_cons]
    · simp only [beq_false_of_ne hn, Bool.false_eq_true, if_false,
        Option.map_eq_some_iff] at h
      obtain ⟨j, hj, rfl⟩ := h
      rw [update, if_neg hn, List.modify_succ_cons, ih hj]

/-- A change at a name that has no entry adds one. -/
theorem update_eq_concat {ns : List (NonTerminal K α)}
    (h : ns.findIdx? (·.name == x) = none) : update x f ns = ns ++ [f (.bare x)] := by
  induction ns with
  | nil => rfl
  | cons n ns ih =>
    rw [List.findIdx?_cons] at h
    by_cases hn : n.name = x
    · simp [hn] at h
    · rw [update, if_neg hn, List.cons_append, ih (by simpa [hn] using h)]

end Grammar

theorem modify_concat {β : Type} (f : β → β) (xs : List β) (x : β) :
    (xs ++ [x]).modify xs.length f = xs ++ [f x] := by
  induction xs with
  | nil => rfl
  | cons y xs ih => rw [List.cons_append, List.length_cons, List.modify_succ_cons, ih]; rfl

namespace IndexedGrammar

/-- **An indexed grammar is in step with a grammar**: its slots are the entries, and
its index leads to where they are. -/
structure InStep (ig : IndexedGrammar K α) (g : Grammar K α) : Prop where
  /-- The start is the same. -/
  start : ig.start = g.start
  /-- The slots are the entries. -/
  slots : ig.slots = g.nonTerminals
  /-- The index leads to the place of a name. -/
  indexOf? : ∀ x, ig.indexOf? x = g.indexOf? x

theorem inStep_empty (start : String) :
    InStep (empty start) (.empty start : Grammar K α) where
  start := rfl
  slots := rfl
  indexOf? _ := rfl

/-- **An addition keeps an indexed grammar in step.** -/
theorem InStep.add {ig : IndexedGrammar K α} {g : Grammar K α} (h : InStep ig g)
    (a : Addition K α) : InStep (ig.add a) (g.add a) := by
  have hstart : (g.add a).start = g.start := by cases a <;> rfl
  have hnames : (g.add a).names =
      if a.head ∈ g.names then g.names else g.names ++ [a.head] := by
    rw [Grammar.names, g.nonTerminals_add, Grammar.names_update a.name_change]
    rfl
  have hindex := h.indexOf? a.head
  cases hslot : ig.indexOf? a.head with
  | some i =>
    rw [hslot] at hindex
    have hadd : ig.add a = { ig with slots := ig.slots.modify i a.change } := by
      rw [IndexedGrammar.add, slot, hslot]
    have hmem : a.head ∈ g.names := by
      rw [← Grammar.contains_iff_mem_names, ← Grammar.isSome_indexOf?, ← hindex]
      rfl
    refine ⟨?_, ?_, fun x => ?_⟩
    · rw [hadd, hstart]
      exact h.start
    · rw [hadd, g.nonTerminals_add, Grammar.update_eq_modify hindex.symm, ← h.slots]
    · rw [hadd, Grammar.indexOf?_eq_names, hnames, if_pos hmem,
        ← Grammar.indexOf?_eq_names]
      exact h.indexOf? x
  | none =>
    rw [hslot] at hindex
    have hadd : ig.add a = { ig with
        slots := (ig.slots ++ [NonTerminal.bare a.head]).modify ig.slots.length a.change
        index := (a.head, ig.slots.length) :: ig.index } := by
      rw [IndexedGrammar.add, slot, hslot]
    have hmem : a.head ∉ g.names := by
      rw [← Grammar.contains_iff_mem_names, ← Grammar.isSome_indexOf?, ← hindex]
      exact Bool.false_ne_true
    refine ⟨?_, ?_, fun x => ?_⟩
    · rw [hadd, hstart]
      exact h.start
    · rw [hadd, g.nonTerminals_add, Grammar.update_eq_concat hindex.symm, ← h.slots]
      exact modify_concat ..
    · have hlength : g.names.length = ig.slots.length := by
        rw [h.slots, Grammar.names, List.length_map]
      have hx := h.indexOf? x
      rw [Grammar.indexOf?_eq_names] at hx hindex
      rw [hadd, Grammar.indexOf?_eq_names, hnames, if_neg hmem, List.findIdx?_append,
        ← hx, hlength, IndexedGrammar.indexOf?, List.lookup_cons]
      by_cases heq : x = a.head
      · subst heq
        simp [hslot]
      · simp [beq_false_of_ne heq, beq_false_of_ne (Ne.symm heq), IndexedGrammar.indexOf?]

/-- **Additions keep an indexed grammar in step.** -/
theorem inStep_ofAdditions (start : String) (as : List (Addition K α)) :
    InStep (ofAdditions start as) (.ofAdditions start as) := by
  have hfold {ig : IndexedGrammar K α} {g : Grammar K α} (h : InStep ig g) :
      InStep (as.foldl IndexedGrammar.add ig) (as.foldl Grammar.add g) := by
    induction as generalizing ig g with
    | nil => exact h
    | cons a as ih => exact ih (h.add a)
  exact hfold (inStep_empty start)

/-! ## Looking up names -/

theorem bind_findIdx? {β : Type} (p : β → Bool) (xs : List β) :
    (xs.findIdx? p).bind (xs[·]?) = xs.find? p := by
  induction xs with
  | nil => rfl
  | cons x xs ih =>
    rw [List.findIdx?_cons, List.find?_cons]
    cases p x with
    | true => rfl
    | false =>
      rw [← ih]
      cases xs.findIdx? p <;> rfl

variable {ig : IndexedGrammar K α} {g : Grammar K α}

theorem InStep.get? (h : InStep ig g) (x : String) : ig.get? x = g.get? x := by
  rw [IndexedGrammar.get?, h.indexOf?, h.slots]
  exact bind_findIdx? _ _

theorem InStep.contains (h : InStep ig g) (x : String) :
    ig.contains x = g.contains x := by
  rw [IndexedGrammar.contains, h.indexOf?, Grammar.isSome_indexOf?]

/-- **An indexed grammar holds what was added**: an entry for each name that something
was added to, found by all lookups. -/
structure Holds (ig : IndexedGrammar K α) (as : List (Addition K α)) : Prop where
  /-- The names are in the order of first additions. -/
  names : ig.slots.map (·.name) = (as.map (·.head)).eraseDups
  /-- No two entries have one name. -/
  nodup : (ig.slots.map (·.name)).Nodup
  /-- A name is declared if something was added to it. -/
  contains_iff : ∀ x, ig.contains x = true ↔ ∃ a ∈ as, a.head = x
  /-- A name has an entry if it is declared. -/
  isSome_get? : ∀ x, (ig.get? x).isSome = ig.contains x
  /-- A name has a slot if it is declared. -/
  isSome_indexOf? : ∀ x, (ig.indexOf? x).isSome = ig.contains x
  /-- The entry of a name is in its slot. -/
  get?_eq_slot : ∀ x i, ig.indexOf? x = some i →
    i < ig.slots.length ∧ ig.slots[i]? = ig.get? x
  /-- The entry of a name has what was added to the name, in order. -/
  entry : ∀ x n, ig.get? x = some n →
    n.name = x ∧ n.rules = as.filterMap (Addition.ruleFor? x) ∧
      n.operators = as.filterMap (Addition.operatorFor? x)

/-- **However they are ordered, additions are held.** -/
theorem holds_ofAdditions (start : String) (as : List (Addition K α)) :
    (ofAdditions start as).Holds as := by
  have hstep := inStep_ofAdditions start as
  have hentries := Grammar.nonTerminals_ofAdditions start as
  have hnames : (Grammar.ofAdditions start as).names = headsOf as := by
    rw [Grammar.names, hentries, List.map_map]
    exact List.map_id _
  have hslots : (ofAdditions start as).slots.map (·.name) = headsOf as := by
    rw [hstep.slots]
    exact hnames
  refine ⟨hslots, hslots ▸ nodup_eraseDups _, fun x => ?_, fun x => ?_, fun x => ?_,
    fun x i hi => ?_, fun x n hn => ?_⟩
  · rw [hstep.contains, Grammar.contains_iff_mem_names, hnames, headsOf,
      List.mem_eraseDups, List.mem_map]
  · rw [hstep.get?, hstep.contains, Grammar.contains_eq_isSome_get?]
  · rw [hstep.indexOf?, hstep.contains, Grammar.isSome_indexOf?]
  · have hget : (ofAdditions start as).get? x = (ofAdditions start as).slots[i]? := by
      rw [IndexedGrammar.get?, hi, Option.bind_some]
    rw [hstep.indexOf?] at hi
    rw [hstep.slots] at hget ⊢
    exact ⟨(List.findIdx?_eq_some_iff_findIdx_eq.mp hi).1, hget.symm⟩
  · rw [hstep.get?] at hn
    obtain rfl := Grammar.name_of_get? hn
    have hmem := List.mem_of_find?_eq_some hn
    rw [hentries] at hmem
    obtain ⟨y, -, rfl⟩ := List.mem_map.mp hmem
    exact ⟨rfl, rfl, rfl⟩

end IndexedGrammar

end Descent
