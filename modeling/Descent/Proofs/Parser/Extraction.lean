import Descent.Proofs.Grammar.Additions
import Descent.Proofs.Parser.Build
import Descent.Proofs.RuleText.Parse

/-!
# The grammar that productions declare

Read off as a whole, productions declare a grammar: its names are those of their
declarations, each where it is declared first, and a name has the rules and the
operators that the declarations for it add, one after the other
(`Builder.grammarOf`). Extraction comes to it by adding one production at a time
(`Builder.extractFrom_eq`). A production that declares nothing, or an operator that
cannot be meant, is one error there (`Production.defect?`), and the others are
gone through all the same.
-/

namespace Descent

variable {K α : Type}

/-! ## What one production adds -/

namespace Production

/-- The rules that a production adds to the name that it is for. -/
def rules (p : Production K α) : Body K → List (Rule K α)
  | .branches branches => branches.map (Builder.ruleOf p)
  | .operator _ => []

variable [TokenKind K]

/-- The operators that a production adds to the name that it is for. -/
def operators (catalog : Catalog) (p : Production K α) :
    Body K → List (Operator K α)
  | .branches _ => []
  | .operator d =>
    match Builder.operationOf catalog d with
    | .ok (kind, operation) => [⟨kind, operation, p.text, p.name, p.callback⟩]
    | .error _ => []

/-- The name of a production's declaration, with what it adds there. -/
def grow (catalog : Catalog) (p : Production K α) (body : Body K)
    (n : NonTerminal K α) : NonTerminal K α :=
  { n with
    rules := n.rules ++ p.rules body
    operators := n.operators ++ p.operators catalog body }

theorem grow_branches (catalog : Catalog) (p : Production K α)
    (branches : List (List (Clause K))) :
    p.grow catalog (.branches branches) = fun n : NonTerminal K α =>
      { n with rules := n.rules ++ branches.map (Builder.ruleOf p) } := by
  funext n
  simp [grow, rules, operators]

theorem grow_operator {catalog : Catalog} {d : OperatorDeclaration} {kind : K}
    {operation : Operation} (h : Builder.operationOf catalog d = .ok (kind, operation))
    (p : Production K α) :
    p.grow catalog (.operator d) = fun n : NonTerminal K α =>
      n.withOperator ⟨kind, operation, p.text, p.name, p.callback⟩ := by
  funext n
  simp [grow, rules, operators, h, NonTerminal.withOperator]

/-- What a production declares, if it can be read. -/
def declaration? (p : Production K α) : Option (Declaration K) :=
  match RuleText.parse p.text with
  | .ok (.ok d) => some d
  | .ok (.error _) | .error _ => none

/-- **What is wrong with a production**, if anything is: what is said when it is
added to a grammar. -/
def defect? (catalog : Catalog) (p : Production K α) : Option BuildError :=
  match RuleText.parse (K := K) p.text with
  | .ok answer =>
    match Builder.addDeclaration catalog (.empty "") p answer with
    | .error e => some e
    | .ok _ => none
  | .error _ => none

end Production

namespace Builder

/-! ## The grammar as a whole -/

/-- A production with what it declares. -/
abbrev Entry (K α : Type) := Production K α × Declaration K

/-- The names that are declared, in the order of their first declarations. -/
def headsOf (es : List (Entry K α)) : List String :=
  (es.map (·.2.name)).eraseDups

theorem mem_headsOf_iff {es : List (Entry K α)} {x : String} :
    x ∈ headsOf es ↔ ∃ e ∈ es, e.2.name = x := by
  rw [headsOf, List.mem_eraseDups, List.mem_map]

/-- A name is declared where it is declared first. -/
theorem headsOf_concat (es : List (Entry K α)) (e : Entry K α) :
    headsOf (es ++ [e]) =
      if e.2.name ∈ headsOf es then headsOf es else headsOf es ++ [e.2.name] := by
  rw [headsOf, List.map_append, List.map_singleton, eraseDups_concat]
  rfl

/-! ## The entry of a name -/

section

variable {x : String} {p : Production K α}

/-- Branches are added in one change of the name that they are for. -/
theorem nonTerminals_addRules {branches : List (List (Clause K))}
    (hne : branches ≠ []) (g : Grammar K α) :
    (branches.foldl (fun g clauses => g.addRule x (ruleOf p clauses)) g).nonTerminals =
      Grammar.update x (fun n => { n with rules := n.rules ++ branches.map (ruleOf p) })
        g.nonTerminals := by
  induction branches generalizing g with
  | nil => exact absurd rfl hne
  | cons clauses branches ih =>
    rw [List.foldl_cons]
    cases branches with
    | nil => rfl
    | cons clauses' branches =>
      rw [ih (List.cons_ne_nil _ _), Grammar.addRule, Grammar.update_update]
      · simp [NonTerminal.withRule]
      · exact Grammar.name_withRule _

theorem start_addRules (branches : List (List (Clause K))) (g : Grammar K α) :
    (branches.foldl (fun g clauses => g.addRule x (ruleOf p clauses)) g).start =
      g.start := by
  induction branches generalizing g with
  | nil => rfl
  | cons clauses branches ih => rw [List.foldl_cons, ih, Grammar.start_addRule]

end

variable [TokenKind K] {catalog : Catalog} {root x : String}
  {es : List (Entry K α)} {p : Production K α} {d : Declaration K}
  {g : Grammar K α}

/-- All that is declared for a name. -/
def nonTerminalOf (catalog : Catalog) (es : List (Entry K α)) (x : String) :
    NonTerminal K α :=
  let own := es.filter (·.2.name == x)
  ⟨x, own.flatMap fun e => e.1.rules e.2.body,
    own.flatMap fun e => e.1.operators catalog e.2.body⟩

/-- **The grammar that productions declare.** -/
def grammarOf (catalog : Catalog) (root : String) (es : List (Entry K α)) :
    Grammar K α where
  start := root
  nonTerminals := (headsOf es).map (nonTerminalOf catalog es)
  names_nodup := by
    rw [List.map_map]
    exact (List.map_id (headsOf es)).symm ▸ nodup_eraseDups _

/-- What is declared for a name grows by what the next production declares for
it. -/
theorem nonTerminalOf_concat :
    nonTerminalOf catalog (es ++ [(p, d)]) x =
      if x = d.name then p.grow catalog d.body (nonTerminalOf catalog es x)
      else nonTerminalOf catalog es x := by
  by_cases h : x = d.name
  · simp [nonTerminalOf, Production.grow, h]
  · have h' : d.name ≠ x := Ne.symm h
    simp [nonTerminalOf, h, h']

theorem nonTerminalOf_of_not_mem (h : x ∉ headsOf es) :
    nonTerminalOf catalog es x = .bare x := by
  have hnone : es.filter (·.2.name == x) = [] :=
    List.filter_eq_nil_iff.mpr fun e he heq =>
      h (mem_headsOf_iff.mpr ⟨e, he, eq_of_beq heq⟩)
  rw [nonTerminalOf, hnone]
  rfl

/-! ## Adding productions one by one -/

/-- **One production more** changes the entry of its name, if nothing is wrong with
it. -/
theorem nonTerminals_addDeclaration {g' : Grammar K α}
    (hbranches : ∀ branches, d.body = .branches branches → branches ≠ [])
    (h : addDeclaration catalog g p (.ok d) = .ok g') :
    g'.start = g.start ∧
      g'.nonTerminals =
        Grammar.update d.name (p.grow catalog d.body) g.nonTerminals := by
  obtain ⟨head, body⟩ := d
  cases body with
  | branches branches =>
    obtain rfl := Except.ok.inj h
    refine ⟨start_addRules .., ?_⟩
    rw [nonTerminals_addRules (hbranches branches rfl)]
    rw [Production.grow_branches]
  | operator d =>
    simp only [addDeclaration] at h
    split at h
    · next kind operation hop =>
      obtain rfl := Except.ok.inj h
      refine ⟨rfl, ?_⟩
      rw [Production.grow_operator hop]
      rfl
    · cases h

theorem addDeclaration_grammarOf {g' : Grammar K α}
    (hbranches : ∀ branches, d.body = .branches branches → branches ≠ [])
    (h : addDeclaration catalog (grammarOf catalog root es) p (.ok d) = .ok g') :
    g' = grammarOf catalog root (es ++ [(p, d)]) := by
  obtain ⟨hstart, hentries⟩ := nonTerminals_addDeclaration hbranches h
  refine Grammar.ext_of_nonTerminals hstart (hentries.trans ?_)
  have hbare : d.name ∉ headsOf es →
      nonTerminalOf catalog es d.name = .bare d.name := nonTerminalOf_of_not_mem
  refine (Grammar.update_map (fun _ => rfl) (nodup_eraseDups _) hbare).trans ?_
  show _ = (headsOf (es ++ [(p, d)])).map _
  rw [headsOf_concat]
  exact List.map_congr_left fun y _ => nonTerminalOf_concat.symm

/-! ## Extraction -/

/-- Rule texts that declare branches declare one at least. -/
theorem branches_ne_nil_of_parse {text : String}
    (h : RuleText.parse text = .ok (.ok d)) {branches : List (List (Clause K))}
    (hbody : d.body = .branches branches) : branches ≠ [] := by
  obtain ⟨tokens, -, hspells⟩ := RuleText.exists_spells_of_parse h
  have hbranches {ts} {bs : List (List (Clause K))}
      (hbs : RuleText.Spells .body ts (.body (.branches bs))) : bs ≠ [] := by
    cases hbs with
    | branchesBody halt => cases halt <;> exact List.cons_ne_nil _ _
    | emptyBody => exact List.cons_ne_nil _ _
  obtain ⟨head, body⟩ := d
  subst hbody
  generalize tokens.toList = ts at hspells
  cases hspells with
  | rule _ _ hspelled => exact hbranches hspelled
  | ruleEnd _ _ hspelled _ => exact hbranches hspelled

/-- What is wrong with a production is wrong with it in any grammar. -/
theorem defect?_eq {answer : Except (ParseError RuleKind) (Declaration K)}
    (hparse : RuleText.parse p.text = .ok answer) (g : Grammar K α) :
    p.defect? catalog =
      match addDeclaration catalog g p answer with
      | .error e => some e
      | .ok _ => none := by
  simp only [Production.defect?, hparse]
  obtain e | ⟨head, branches | d⟩ := answer
  · rfl
  · rfl
  · simp only [addDeclaration]
    cases operationOf (K := K) catalog d <;> rfl

/-- The declarations of productions, where there are any. -/
def entriesOf (ps : List (Production K α)) : List (Entry K α) :=
  ps.filterMap fun p => p.declaration?.map (p, ·)

/-- **Extraction finds what is wrong with each production**, and if nothing is, it
comes to the grammar that the productions declare. -/
theorem extractFrom_eq {ps : List (Production K α)} {errors : List BuildError}
    (h : extractFrom catalog (grammarOf catalog root es) ps = .ok (g, errors)) :
    errors = ps.filterMap (·.defect? catalog) ∧
      (errors = [] → g = grammarOf catalog root (es ++ entriesOf ps)) := by
  induction ps generalizing es g errors with
  | nil =>
    obtain ⟨rfl, rfl⟩ := Prod.mk.inj (Except.ok.inj h)
    exact ⟨rfl, fun _ => by simp [entriesOf]⟩
  | cons p ps ih =>
    cases hparse : RuleText.parse (K := K) p.text with
    | error fault => simp [extractFrom, hparse, bind, Except.bind] at h
    | ok answer =>
      have hdefect : p.defect? catalog = _ :=
        defect?_eq hparse (grammarOf catalog root es)
      cases hadd : addDeclaration catalog (grammarOf catalog root es) p answer with
      | error e =>
        rw [hadd] at hdefect
        rw [extractFrom_cons_of_error hparse hadd] at h
        cases hrest : extractFrom catalog (grammarOf catalog root es) ps with
        | error fault => simp [hrest, Except.map] at h
        | ok rest =>
          rw [hrest] at h
          obtain ⟨rfl, rfl⟩ := Prod.mk.inj (Except.ok.inj h)
          refine ⟨?_, fun hnone => absurd hnone (List.cons_ne_nil _ _)⟩
          rw [List.filterMap_cons_some hdefect, (ih hrest).1]
      | ok g' =>
        rw [hadd] at hdefect
        rw [extractFrom_cons_of_ok hparse hadd] at h
        cases answer with
        | error e => cases hadd
        | ok d =>
          obtain rfl := addDeclaration_grammarOf
            (fun _ => branches_ne_nil_of_parse hparse) hadd
          have hentry : p.declaration? = some d := by
            simp only [Production.declaration?, hparse]
          obtain ⟨herrors, hg⟩ := ih h
          refine ⟨herrors.trans (List.filterMap_cons_none hdefect).symm,
            fun hnone => ?_⟩
          rw [hg hnone, entriesOf, entriesOf, List.filterMap_cons, hentry]
          simp

/-- **Extraction has an answer** exactly if each rule text can be gone through. -/
theorem exists_extractFrom_iff {ps : List (Production K α)} :
    (∃ answer, extractFrom catalog g ps = .ok answer) ↔
      ∀ p ∈ ps, ∃ answer, RuleText.parse (K := K) p.text = .ok answer := by
  induction ps generalizing g with
  | nil => exact ⟨fun _ _ hp => absurd hp List.not_mem_nil, fun _ => ⟨(g, []), rfl⟩⟩
  | cons p ps ih =>
    rw [List.forall_mem_cons]
    cases hparse : RuleText.parse (K := K) p.text with
    | error fault => simp [extractFrom, hparse, bind, Except.bind]
    | ok answer =>
      have hsome : ∃ answer', Except.ok (ε := Fault) answer = .ok answer' := ⟨_, rfl⟩
      cases hadd : addDeclaration catalog g p answer with
      | ok g' =>
        rw [extractFrom_cons_of_ok hparse hadd, ih, and_iff_right hsome]
      | error e =>
        rw [extractFrom_cons_of_error hparse hadd, and_iff_right hsome, ← ih]
        constructor
        · rintro ⟨_, h⟩
          cases hrest : extractFrom catalog g ps with
          | error fault => simp [hrest, Except.map] at h
          | ok rest => exact ⟨rest, rfl⟩
        · rintro ⟨rest, hrest⟩
          exact ⟨_, by rw [hrest]; rfl⟩

end Builder

end Descent
