import Descent.Grammar.Basic
import Descent.Proofs.List.FirstOccurrence

/-!
# What rules refer to

A clause mentions a name if the name stands in it at any depth
(`Clause.Mentions`). The mentions of a grammar are listed as they stand, with the
non-terminal that each is in (`Grammar.mentions`); of those that are of no declared
name every pair is kept once, where it stands first
(`Grammar.pairwise_undefinedReferences`).
-/

namespace Descent

variable {K α : Type}

/-! ## Clauses -/

namespace Clause

/-- **A clause mentions a name**, at whatever depth. -/
inductive Mentions : Clause K → String → Prop
  /-- A reference mentions its name. -/
  | reference {x : String} {d : Bool} : Mentions (.reference x d) x
  /-- A group mentions what one of its members does. -/
  | group {cs : List (Clause K)} {c : Clause K} {x : String} :
      c ∈ cs → Mentions c x → Mentions (.group cs) x
  /-- A choice mentions what one of its branches does. -/
  | choice {bs : List (Clause K)} {b : Clause K} {x : String} :
      b ∈ bs → Mentions b x → Mentions (.choice bs) x
  /-- An option mentions what its body does. -/
  | optional {b : Clause K} {x : String} : Mentions b x → Mentions (.optional b) x
  /-- A repetition mentions what its body does. -/
  | star {b : Clause K} {x : String} : Mentions b x → Mentions (.star b) x
  /-- So does one that needs its body once. -/
  | plus {b : Clause K} {x : String} : Mentions b x → Mentions (.plus b) x

mutual

theorem mentions_of_mem_references {x : String} :
    (c : Clause K) → x ∈ c.references → c.Mentions x
  | token .., h => absurd h List.not_mem_nil
  | reference _ _, h => by
    obtain rfl := List.mem_singleton.mp h
    exact .reference
  | group members, h => by
    obtain ⟨c, hc, hx⟩ := mentions_of_mem_referencesAll members h
    exact .group hc hx
  | choice branches, h => by
    obtain ⟨b, hb, hx⟩ := mentions_of_mem_referencesAll branches h
    exact .choice hb hx
  | optional body, h => .optional (mentions_of_mem_references body h)
  | star body, h => .star (mentions_of_mem_references body h)
  | plus body, h => .plus (mentions_of_mem_references body h)

theorem mentions_of_mem_referencesAll {x : String} :
    (cs : List (Clause K)) → x ∈ referencesAll cs → ∃ c ∈ cs, c.Mentions x
  | [], h => absurd h List.not_mem_nil
  | c :: cs, h => by
    rcases List.mem_append.mp h with h | h
    · exact ⟨c, List.mem_cons_self, mentions_of_mem_references c h⟩
    · obtain ⟨d, hd, hx⟩ := mentions_of_mem_referencesAll cs h
      exact ⟨d, List.mem_cons_of_mem c hd, hx⟩

end

theorem mem_referencesAll_iff {cs : List (Clause K)} {x : String} :
    x ∈ referencesAll cs ↔ ∃ c ∈ cs, x ∈ c.references := by
  rw [referencesAll_eq_flatMap, List.mem_flatMap]

/-- **The names referred to are those that are mentioned.** -/
theorem mem_references_iff {c : Clause K} {x : String} :
    x ∈ c.references ↔ c.Mentions x := by
  refine ⟨mentions_of_mem_references c, fun h => ?_⟩
  induction h with
  | reference => exact List.mem_singleton_self _
  | group hc _ ih => exact mem_referencesAll_iff.mpr ⟨_, hc, ih⟩
  | choice hb _ ih => exact mem_referencesAll_iff.mpr ⟨_, hb, ih⟩
  | optional _ ih | star _ ih | plus _ ih => exact ih

end Clause

/-- The names referred to by a non-terminal are those that a clause of one of its
rules mentions. -/
theorem NonTerminal.mem_references_iff {n : NonTerminal K α} {x : String} :
    x ∈ n.references ↔ ∃ rule ∈ n.rules, ∃ c ∈ rule.clauses, c.Mentions x := by
  simp only [references, Rule.references, List.mem_flatMap,
    Clause.mem_referencesAll_iff, Clause.mem_references_iff]

/-- A rule is not plain if it has a clause that is neither a token nor a
reference. -/
theorem Rule.isPlain_eq_false_iff {r : Rule K α} :
    r.isPlain = false ↔ ∃ c ∈ r.clauses, c.isPlain = false := by
  simp [isPlain]

namespace Grammar

variable {g : Grammar K α}

/-- **The mentions of names in a grammar**, in the order in which they stand, each
with the non-terminal that it is in. -/
def mentions (g : Grammar K α) : List (String × String) :=
  g.nonTerminals.flatMap fun n => n.references.map (n.name, ·)

theorem undefinedReferences_eq :
    g.undefinedReferences = (g.mentions.filter (!g.contains ·.2)).eraseDups := by
  rw [undefinedReferences, mentions, List.filter_flatMap]
  congr 2
  funext n
  rw [List.filter_map]
  rfl

theorem mem_mentions_iff {x y : String} :
    (x, y) ∈ g.mentions ↔ ∃ n ∈ g.nonTerminals, n.name = x ∧
      ∃ rule ∈ n.rules, ∃ c ∈ rule.clauses, c.Mentions y := by
  simp only [mentions, List.mem_flatMap, List.mem_map, Prod.mk.injEq,
    ← NonTerminal.mem_references_iff]
  constructor
  · rintro ⟨n, hn, _, hy, hx, rfl⟩
    exact ⟨n, hn, hx, hy⟩
  · rintro ⟨n, hn, hx, hy⟩
    exact ⟨n, hn, y, hy, hx, rfl⟩

/-- The references to names that are not declared are the mentions of such. -/
theorem mem_undefinedReferences_iff {x y : String} :
    (x, y) ∈ g.undefinedReferences ↔
      (x, y) ∈ g.mentions ∧ g.contains y = false := by
  rw [undefinedReferences_eq, List.mem_eraseDups, List.mem_filter,
    Bool.not_eq_true']

/-- None of them is listed twice. -/
theorem nodup_undefinedReferences : g.undefinedReferences.Nodup :=
  nodup_eraseDups _

/-- **They are listed in the order of their first mentions.** -/
theorem pairwise_undefinedReferences :
    g.undefinedReferences.Pairwise fun q r =>
      g.mentions.idxOf q < g.mentions.idxOf r := by
  rw [undefinedReferences_eq]
  exact pairwise_eraseDups_filter _ _

end Grammar

end Descent
