import Descent.Proofs.Parser.Defects

/-!
# What productions add to a grammar

A production that is well-formed adds to its name a rule for each branch of its rule
text, or an operator (`Production.additions`). Extraction of well-formed productions
finds nothing wrong, and makes these additions one production after the other
(`Builder.extractFrom_of_isWellFormed`).

So the grammar has one entry for each name that is declared, in the order of first
declarations, and in the entry the branches in the order of the productions, and
within a production in that of its text. A branch keeps the name, the text and the
callback of its production (`Builder.additions_exact`).
-/

namespace Descent

variable {K α : Type} [TokenKind K]

namespace Production

/-- **A production that is well-formed**: its rule text can be read, and an operator
that it declares can be meant. -/
def IsWellFormed (catalog : Catalog) (p : Production K α) : Prop :=
  ∃ d : Declaration K, RuleText.parse p.text = .ok (.ok d) ∧
    ∀ o, d.body = .operator o →
      ∃ kind operation, Builder.operationOf catalog o = .ok ((kind : K), operation)

/-- What a production adds if its rule text declares something. -/
def additions (catalog : Catalog) (p : Production K α) (d : Declaration K) :
    List (Addition K α) :=
  (p.rules d.body).map (.rule d.name) ++
    (p.operators catalog d.body).map (.operator d.name)

end Production

namespace Builder

/-- What productions with their declarations add, one production after the other. -/
def additionsOf (catalog : Catalog) (es : List (Entry K α)) : List (Addition K α) :=
  es.flatMap fun e => e.1.additions catalog e.2

variable {catalog : Catalog} {p : Production K α}

theorem additionsOf_cons (e : Entry K α) (es : List (Entry K α)) :
    additionsOf catalog (e :: es) =
      e.1.additions catalog e.2 ++ additionsOf catalog es :=
  List.flatMap_cons

/-- **A well-formed production makes its additions.** -/
theorem addDeclaration_of_isWellFormed {d : Declaration K}
    (hoperator : ∀ o, d.body = .operator o →
      ∃ kind operation, operationOf catalog o = .ok ((kind : K), operation))
    (g : Grammar K α) :
    addDeclaration catalog g p (.ok d) =
      .ok ((p.additions catalog d).foldl Grammar.add g) := by
  obtain ⟨head, body⟩ := d
  cases body with
  | branches branches =>
    simp only [addDeclaration, Production.additions, Production.rules,
      Production.operators, List.map_map, List.map_nil, List.append_nil,
      List.foldl_map]
    rfl
  | operator o =>
    obtain ⟨kind, operation, ho⟩ := hoperator o rfl
    simp only [addDeclaration, Production.additions, Production.rules,
      Production.operators, ho]
    rfl

/-- **A production is well-formed if nothing is wrong with it**, and its text can be
gone through. -/
theorem isWellFormed_iff :
    p.IsWellFormed (K := K) catalog ↔
      (∃ answer, RuleText.parse (K := K) p.text = .ok answer) ∧
        p.defect? (K := K) catalog = none := by
  constructor
  · rintro ⟨d, hparse, hoperator⟩
    refine ⟨⟨_, hparse⟩, ?_⟩
    rw [defect?_eq hparse (.empty ""), addDeclaration_of_isWellFormed hoperator]
  · rintro ⟨⟨answer, hparse⟩, hdefect⟩
    rw [defect?_eq hparse (.empty "")] at hdefect
    cases answer with
    | error e => cases hdefect
    | ok d =>
      refine ⟨d, hparse, fun o ho => ?_⟩
      obtain ⟨head, body⟩ := d
      obtain rfl : body = .operator o := ho
      cases hop : operationOf (K := K) catalog o with
      | error reason => simp [addDeclaration, hop] at hdefect
      | ok meant => exact ⟨meant.1, meant.2, rfl⟩

/-- A well-formed production has one entry. -/
theorem entriesOf_cons {d : Declaration K} (hparse : RuleText.parse p.text = .ok (.ok d))
    (ps : List (Production K α)) : entriesOf (p :: ps) = (p, d) :: entriesOf ps := by
  have hdeclaration : p.declaration? = some d := by
    simp only [Production.declaration?, hparse]
  rw [entriesOf, List.filterMap_cons, hdeclaration]
  rfl

/-- **Extraction of well-formed productions makes their additions**, and finds nothing
wrong. -/
theorem extractFrom_of_isWellFormed {ps : List (Production K α)}
    (h : ∀ p ∈ ps, p.IsWellFormed (K := K) catalog) (g : Grammar K α) :
    extractFrom catalog g ps =
      .ok ((additionsOf catalog (entriesOf ps)).foldl Grammar.add g, []) := by
  induction ps generalizing g with
  | nil => rfl
  | cons p ps ih =>
    obtain ⟨⟨d, hparse, hoperator⟩, hps⟩ := List.forall_mem_cons.mp h
    rw [extractFrom_cons_of_ok hparse (addDeclaration_of_isWellFormed hoperator g),
      ih hps, entriesOf_cons hparse, additionsOf_cons, List.foldl_append]

/-- Well-formed productions have one entry each. -/
theorem map_fst_entriesOf {ps : List (Production K α)}
    (h : ∀ p ∈ ps, p.IsWellFormed (K := K) catalog) :
    (entriesOf (K := K) ps).map (·.1) = ps := by
  induction ps with
  | nil => rfl
  | cons p ps ih =>
    obtain ⟨⟨d, hparse, -⟩, hps⟩ := List.forall_mem_cons.mp h
    rw [entriesOf_cons hparse, List.map_cons, ih hps]

/-- **Grammars hold what is added to them, and productions add their branches.**

An indexed grammar that is made by additions, in whatever order, holds them, and is in
step with the grammar that they make. The grammar of well-formed productions is made
by the additions of the productions. It has an entry for each name that is declared,
in the order of first declarations, with the branches that are declared for the name
in the order of the productions and of the branches in each, and with the operators
that are. -/
theorem additions_exact :
    (∀ (start : String) (as : List (Addition K α)),
      (IndexedGrammar.ofAdditions start as).Holds as ∧
      (IndexedGrammar.ofAdditions start as).InStep (.ofAdditions start as)) ∧
    ∀ (b : Builder K α) (root : String),
      (∀ p ∈ b.productions, p.IsWellFormed b.catalog) →
      ∃ (es : List (Entry K α)) (g : Grammar K α),
        es.map (·.1) = b.productions ∧
        (∀ e ∈ es, RuleText.parse e.1.text = .ok (.ok e.2)) ∧
        b.extract root = .ok (g, []) ∧
        g = .ofAdditions root (additionsOf b.catalog es) ∧
        g.names = (es.map (·.2.name)).eraseDups ∧
        ∀ n ∈ g.nonTerminals,
          n.rules = ((es.filter (·.2.name == n.name)).flatMap fun e =>
            e.1.rules e.2.body) ∧
          n.operators = (es.filter (·.2.name == n.name)).flatMap fun e =>
            e.1.operators b.catalog e.2.body := by
  refine ⟨fun start as => ⟨IndexedGrammar.holds_ofAdditions start as,
    IndexedGrammar.inStep_ofAdditions start as⟩, fun b root hb => ?_⟩
  have hextract : extractFrom b.catalog (grammarOf b.catalog root []) b.productions = _ :=
    extractFrom_of_isWellFormed hb (.empty root)
  have hgrammar := (extractFrom_eq hextract).2 rfl
  rw [List.nil_append] at hgrammar
  refine ⟨entriesOf b.productions, _, map_fst_entriesOf hb,
    fun e he => (mem_entriesOf_iff.mp he).2, hextract, rfl, ?_⟩
  refine ⟨?_, fun n hn => ?_⟩
  · refine (congrArg Grammar.names hgrammar).trans ?_
    rw [Grammar.names, grammarOf, List.map_map]
    exact List.map_id _
  · have hmem : n ∈ (grammarOf b.catalog root (entriesOf b.productions)).nonTerminals :=
      hgrammar ▸ hn
    obtain ⟨x, -, rfl⟩ := List.mem_map.mp hmem
    exact ⟨rfl, rfl⟩

end Builder

namespace Script

/-- Productions for two names in turn. One begins with an operator, and one rule text
has two branches. -/
def scattered : Builder ScriptKind Unit :=
  (((Builder.empty.production "number" "item : NUM | TEXT" fun _ => ()).production
    "add" "sum : %infix PLUS 10" fun _ => ()).production
    "group" "item : LPAREN sum RPAREN" fun _ => ()).production
    "operand" "sum : item" fun _ => ()

/-- The names of the productions that the rules of a name come from. -/
def originsOf (g : Grammar ScriptKind Unit) (x : String) : List String :=
  (g.get? x).elim [] fun n => n.rules.map (·.production)

/-- The names are where they are declared first, and the branches in their order. -/
theorem scattered_extract :
    (∀ p ∈ scattered.productions, p.IsWellFormed scattered.catalog) ∧
    ∃ (es : List (Builder.Entry ScriptKind Unit)) (g : Grammar ScriptKind Unit),
      es.map (·.1) = scattered.productions ∧
      scattered.extract "sum" = .ok (g, []) ∧
      g.names = (es.map (·.2.name)).eraseDups ∧ g.names = ["item", "sum"] ∧
      originsOf g "item" = ["number", "number", "group"] ∧
      (IndexedGrammar.ofAdditions "sum"
        (Builder.additionsOf scattered.catalog es)).indexOf? "sum" = some 1 := by
  have hdefect : ∀ p ∈ scattered.productions, p.defect? scattered.catalog = none :=
    List.filterMap_eq_nil_iff.mp (by decide +kernel)
  have hwell : ∀ p ∈ scattered.productions, p.IsWellFormed scattered.catalog :=
    fun p hp => Builder.isWellFormed_iff.mpr
      ⟨RuleText.exists_parse (by revert p; decide), hdefect p hp⟩
  have heval : (match scattered.extract "sum" with
      | .ok (g, _) => g.names == ["item", "sum"] &&
        originsOf g "item" == ["number", "number", "group"]
      | .error _ => false) = true := by
    decide +kernel
  obtain ⟨hadded, hextracted⟩ := Builder.additions_exact (K := ScriptKind) (α := Unit)
  obtain ⟨es, g, hes, -, hextract, hg, hnames, -⟩ := hextracted scattered "sum" hwell
  rw [hextract, Bool.and_eq_true, beq_iff_eq, beq_iff_eq] at heval
  obtain ⟨hsum, horigins⟩ := heval
  refine ⟨hwell, es, g, hes, hextract, hnames, hsum, horigins, ?_⟩
  rw [(hadded "sum" _).2.indexOf?, ← hg, Grammar.indexOf?_eq_names, hsum]
  rfl

end Script

end Descent
