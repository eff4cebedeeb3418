import Descent.Grammar.LeftRecursion

/-!
# What the checks of a grammar read

The checks of a grammar read little of a non-terminal: its name, whether its rules
can match nothing, which names can come first in them and which they refer to. This
is its profile (`NonTerminal.profile`). Grammars that have the same profiles in the
same order have the same nullable names, the same left-recursive cycles and the same
undefined references (`Grammar.nullable_eq_of_profiles`,
`Grammar.leftCycles_eq_of_profiles`, `Grammar.undefinedReferences_eq_of_profiles`).
-/

namespace Descent

variable {K α : Type}

/-- **What the checks read of a non-terminal.** -/
structure Profile where
  /-- Its name. -/
  name : String
  /-- Whether it can match nothing, given which names can. -/
  isNullable : (String → Bool) → Bool
  /-- The names that can come first in its rules, given which can match nothing. -/
  leftmost : (String → Bool) → List String
  /-- The names that its rules refer to. -/
  references : List String

/-- The profile of a non-terminal. -/
def NonTerminal.profile (n : NonTerminal K α) : Profile where
  name := n.name
  isNullable nullable := n.isNullable nullable
  leftmost nullable := n.rules.flatMap (·.leftmost nullable)
  references := n.references

namespace Grammar

/-- The profiles of the non-terminals, in order. -/
def profiles (g : Grammar K α) : List Profile := g.nonTerminals.map (·.profile)

variable {g g' : Grammar K α}

theorem names_eq_of_profiles (h : g.profiles = g'.profiles) :
    g.names = g'.names := by
  have hnames (g : Grammar K α) : g.names = g.profiles.map (·.name) := by
    rw [names, profiles, List.map_map]
    rfl
  rw [hnames, h, hnames]

theorem contains_eq_of_profiles (h : g.profiles = g'.profiles) :
    g.contains = g'.contains := by
  funext x
  rw [Bool.eq_iff_iff, contains_iff_mem_names, contains_iff_mem_names,
    names_eq_of_profiles h]

theorem indexOf?_eq_of_profiles (h : g.profiles = g'.profiles) :
    g.indexOf? = g'.indexOf? := by
  funext x
  rw [indexOf?_eq_names, names_eq_of_profiles h, indexOf?_eq_names]

/-! ## Nullable names -/

theorem nullablePass_eq_of_profiles (h : g.profiles = g'.profiles)
    (known : List String) : g.nullablePass known = g'.nullablePass known := by
  have hpass (g : Grammar K α) : g.nullablePass known =
      g.profiles.foldl (fun known p =>
        if known.contains p.name then known
        else if p.isNullable known.contains then known ++ [p.name]
        else known) known := by
    rw [nullablePass, profiles, List.foldl_map]
    rfl
  rw [hpass, h, hpass]

theorem nullableFrom_eq_of_profiles (h : g.profiles = g'.profiles) (passes : Nat)
    (known : List String) :
    g.nullableFrom passes known = g'.nullableFrom passes known := by
  induction passes generalizing known with
  | zero => rfl
  | succ passes ih =>
    simp only [nullableFrom, nullablePass_eq_of_profiles h, ih]

/-- **Nullable names are found by the profiles.** -/
theorem nullable_eq_of_profiles (h : g.profiles = g'.profiles) :
    g.nullable = g'.nullable := by
  have hsize (g : Grammar K α) : g.size = g.profiles.length :=
    (List.length_map _).symm
  rw [nullable, nullable, nullableFrom_eq_of_profiles h, hsize, h, hsize]

/-! ## Left recursion -/

theorem leftmostGraph_eq_of_profiles (h : g.profiles = g'.profiles) :
    g.leftmostGraph = g'.leftmostGraph := by
  have hgraph (g : Grammar K α) : g.leftmostGraph =
      g.profiles.map fun p =>
        ((p.leftmost g.nullable.contains).filterMap g.indexOf?).eraseDups := by
    rw [leftmostGraph, profiles, List.map_map]
    refine List.map_congr_left fun n _ => ?_
    rw [Function.comp_apply, NonTerminal.profile, List.filterMap_flatMap]
    rfl
  rw [hgraph, hgraph, h, nullable_eq_of_profiles h, indexOf?_eq_of_profiles h]

/-- **Left-recursive cycles are found by the profiles.** -/
theorem leftCycles_eq_of_profiles (h : g.profiles = g'.profiles) :
    g.leftCycles = g'.leftCycles := by
  have hname : g.nameAt = g'.nameAt :=
    funext fun i => by rw [nameAt, nameAt, names_eq_of_profiles h]
  rw [leftCycles, leftCycles, leftmostGraph_eq_of_profiles h, hname]

theorem isLeftRecursive_eq_of_profiles (h : g.profiles = g'.profiles) :
    g.isLeftRecursive = g'.isLeftRecursive := by
  rw [isLeftRecursive, isLeftRecursive, leftCycles_eq_of_profiles h]

/-! ## References -/

/-- **Undefined references are found by the profiles.** -/
theorem undefinedReferences_eq_of_profiles (h : g.profiles = g'.profiles) :
    g.undefinedReferences = g'.undefinedReferences := by
  have hreferences (g : Grammar K α) : g.undefinedReferences =
      (g.profiles.flatMap fun p =>
        (p.references.filter (!g.contains ·)).map (p.name, ·)).eraseDups := by
    rw [undefinedReferences, profiles, List.flatMap_map]
    rfl
  rw [hreferences, hreferences, h, contains_eq_of_profiles h]

end Grammar

end Descent
