import Descent.Proofs.Grammar.Rules
import Descent.Proofs.Matching.Frame

/-!
# Matching stays inside what is declared and known

Two things make a match fail whatever the tokens are: a name that is not
declared, and a clause that the style does not know. Each leaves a mark of its
own in the trace, and nothing else that a goal comes to does.

In a grammar in which all names referred to are declared and all clauses are
known neither happens: whatever is matched from a declared name, every name that
is entered is declared, and nothing is reached that cannot be matched
(`Matcher.all_tame_nonTerminal`).
-/

namespace Descent

variable {K α : Type}

/-- **A clause is admitted** by a grammar and a style: the style knows it, and
the names in it are declared. -/
def Clause.Admitted (g : Grammar K α) (s : Style) (c : Clause K) : Prop :=
  s.allows c = true ∧ ∀ x ∈ c.references, g.contains x = true

/-- All clauses of a list are admitted. -/
def Clause.AllAdmitted (g : Grammar K α) (s : Style) (cs : List (Clause K)) :
    Prop :=
  ∀ c ∈ cs, c.Admitted g s

/-- **All clauses of a grammar are admitted.** -/
def Grammar.Admitted (g : Grammar K α) (s : Style) : Prop :=
  g.AllRules fun _ clauses => Clause.AllAdmitted g s clauses

/-- An event is tame if it is no failure whatever the tokens: a name that is
entered is declared, and nothing is reached that cannot be matched. -/
def Event.Tame (g : Grammar K α) : Event K → Prop
  | .enter _ x => g.contains x = true
  | .reach _ => False
  | .advance _ | .restore .. | .expect .. => True

/-- **All that has happened in a run is tame.** -/
def Run.Tame (g : Grammar K α) (r : Run K) : Prop := ∀ e ∈ r.trace, e.Tame g

/-- All that a goal can come to is admitted. -/
def Goal.Admitted (g : Grammar K α) (s : Style) : Goal K α → Prop
  | name x => g.contains x = true
  | rules _ rs => ∀ rule ∈ rs, Clause.AllAdmitted g s rule.clauses
  | sequence cs | choice cs => Clause.AllAdmitted g s cs
  | clause c | iterations c => c.Admitted g s
  | expression head _ | climb head .. | operand head =>
    ∀ rule ∈ head.rules, Clause.AllAdmitted g s rule.clauses

section Parts

variable {g : Grammar K α} {s : Style} {b c : Clause K} {cs : List (Clause K)}

/-- A style that knows any clause but tokens and references knows all. -/
theorem Style.allows_of_not_isPlain (h : s.allows c = true)
    (hc : c.isPlain = false) (c' : Clause K) : s.allows c' = true := by
  cases s with
  | plain => cases h.symm.trans hc
  | ebnf => rfl

/-- The members of an admitted group, and the branches of an admitted choice, are
admitted. -/
theorem Clause.Admitted.parts (h : c.Admitted g s) (hc : c.isPlain = false)
    (href : c.references = referencesAll cs) : AllAdmitted g s cs := by
  refine fun d hd => ⟨Style.allows_of_not_isPlain h.1 hc d, fun x hx => ?_⟩
  refine h.2 x ?_
  rw [href, referencesAll_eq_flatMap]
  exact List.mem_flatMap.mpr ⟨d, hd, hx⟩

/-- The body of an admitted option or repetition is admitted. -/
theorem Clause.Admitted.body (h : c.Admitted g s) (hc : c.isPlain = false)
    (href : c.references = b.references) : b.Admitted g s :=
  ⟨Style.allows_of_not_isPlain h.1 hc b, fun x hx => h.2 x (href ▸ hx)⟩

end Parts

namespace Run.Tame

variable {g : Grammar K α} {r : Run K}

/-- A run stays tame with a tame event. -/
theorem log (h : r.Tame g) {e : Event K} (he : e.Tame g) : (r.log e).Tame g :=
  List.forall_mem_cons.mpr ⟨he, h⟩

theorem advance (h : r.Tame g) : r.advance.Tame g :=
  List.forall_mem_cons.mpr ⟨trivial, h⟩

theorem restore (h : r.Tame g) (index : Nat) : (r.restore index).Tame g :=
  List.forall_mem_cons.mpr ⟨trivial, h⟩

theorem expectAll (h : r.Tame g) (kinds : List K) :
    (r.expectAll kinds).Tame g := by
  intro e he
  rcases Run.mem_trace_expectAll.mp he with he | ⟨k, _, rfl⟩
  · exact h e he
  · trivial

end Run.Tame

namespace Matcher

variable [DecidableEq K] [TokenKind K] {m : Matcher K α} {goal : Goal K α}
  {r : Run K} {o : Outcome K (List (Tree K α))}

/-- **An attempt at what is admitted keeps its run tame.** -/
theorem Attempt.tame (h : m.Attempt goal r o)
    (hg : m.grammar.Admitted m.style) (hgoal : goal.Admitted m.grammar m.style)
    (hr : r.Tame m.grammar) : o.All (·.Tame m.grammar) := by
  induction h with
  | @undeclared x r hx =>
    have hnone : m.grammar.contains x = false := by
      rw [Grammar.contains_eq_isSome_get?, hx]
      rfl
    cases hnone.symm.trans hgoal
  | head hx _ _ ih | plain hx _ _ ih =>
    have hadmitted := hg _ (List.mem_of_find?_eq_some hx)
    exact ih hadmitted (hr.log hgoal)
  | noRule | noBranch | done => exact hr
  | rule _ ih => exact ih (hgoal _ List.mem_cons_self) hr
  | nextRule _ _ ih ih' =>
    obtain ⟨hrule, hrules⟩ := List.forall_mem_cons.mp hgoal
    exact ih' hrules ((ih hrule hr).restore _)
  | stuck _ ih => exact ih (hgoal _ List.mem_cons_self) hr
  | andThen _ _ ih ih' =>
    obtain ⟨hc, hcs⟩ := List.forall_mem_cons.mp hgoal
    exact Outcome.all_map.mpr (ih' hcs (ih hc hr))
  | refused hs => cases hs.symm.trans hgoal.1
  | token => exact hr.advance
  | noToken => exact hr.log trivial
  | reference _ ih =>
    have hx := hgoal.2 _ List.mem_cons_self
    exact Outcome.all_map.mpr (ih hx hr)
  | group _ _ ih | choice _ _ ih => exact ih (hgoal.parts rfl rfl) hr
  | optional _ _ ih | plusNone _ _ ih => exact ih (hgoal.body rfl rfl) hr
  | optionalNone _ _ ih => exact (ih (hgoal.body rfl rfl) hr).restore _
  | star _ _ ih => exact Outcome.all_map.mpr (ih (hgoal.body rfl rfl) hr)
  | @plus b r r' us o _ _ _ ih ih' =>
    have hbody : b.Admitted m.grammar m.style := hgoal.body rfl rfl
    exact Outcome.all_map.mpr (ih' hbody (ih hbody hr))
  | branch _ ih => exact ih (hgoal _ List.mem_cons_self) hr
  | nextBranch _ _ ih ih' =>
    obtain ⟨hb, hbs⟩ := List.forall_mem_cons.mp hgoal
    exact ih' hbs ((ih hb hr).restore _)
  | stop _ ih | still _ _ ih => exact (ih hgoal hr).restore _
  | again _ _ _ ih ih' => exact Outcome.all_map.mpr (ih' hgoal (ih hgoal hr))
  | noOperand _ ih => exact ih hgoal hr
  | fromOperand _ _ ih ih' => exact ih' hgoal (ih hgoal hr)
  | noOperator => exact hr.expectAll _
  | postfixed _ _ _ ih => exact ih hgoal hr.advance
  | noRight _ _ _ ih => exact (ih hgoal hr.advance).restore _
  | infixed _ _ _ _ ih ih' => exact ih' hgoal (ih hgoal hr.advance)
  | noPrefix _ _ ih => exact ih hgoal (hr.expectAll _)
  | prefixed _ _ ih => exact ih hgoal hr.advance
  | prefixNone _ _ _ ih ih' =>
    exact ih' hgoal (((ih hgoal hr.advance).restore _).expectAll _)

/-- **Matching a declared name stays inside what is declared and known**,
however large its budget. -/
theorem all_tame_nonTerminal (hg : m.grammar.Admitted m.style) {x : String}
    (hx : m.grammar.contains x = true) (n : Nat) :
    (m.nonTerminal n x .start).All (·.Tame m.grammar) := by
  have hstart : (Run.start : Run K).Tame m.grammar :=
    fun _ h => absurd h List.not_mem_nil
  have h : (m.outcome n (.name x) .start).All (·.Tame m.grammar) :=
    all_outcome (fun o (hatt : m.Attempt (.name x) .start o) =>
      hatt.tame hg hx hstart) n
  rwa [outcome, Outcome.all_map] at h

end Matcher

end Descent
