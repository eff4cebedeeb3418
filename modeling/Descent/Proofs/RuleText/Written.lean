import Descent.Proofs.RuleText.Parse
import Descent.Proofs.RuleText.Words

/-!
# The clauses that rule texts can have

A rule text cannot express every clause. What it refers to are names, and no kind
of token is called so; groups and choices have two members at least, because a
single one between parentheses is that one. Such clauses are *written*
(`Clause.IsWritten`), and all that a rule text declares is
(`RuleText.isWritten_of_parse`).
-/

namespace Descent

variable {K : Type} [TokenKind K]

/-- **A clause that a rule text can have**: its references are names that no kind
has, and groups and choices have two members at least. -/
inductive Clause.IsWritten : Clause K → Prop
  | token {k : K} {d : Bool} : IsWritten (.token k d)
  | reference {x : String} {d : Bool} :
      RuleText.IsName x → TokenKind.ofName? (K := K) x = none →
      IsWritten (.reference x d)
  | group {cs : List (Clause K)} :
      2 ≤ cs.length → (∀ c ∈ cs, IsWritten c) → IsWritten (.group cs)
  | choice {bs : List (Clause K)} :
      2 ≤ bs.length → (∀ b ∈ bs, IsWritten b) → IsWritten (.choice bs)
  | optional {b : Clause K} : IsWritten b → IsWritten (.optional b)
  | star {b : Clause K} : IsWritten b → IsWritten (.star b)
  | plus {b : Clause K} : IsWritten b → IsWritten (.plus b)

/-- All clauses of a right-hand side are written. -/
def Body.IsWritten : Body K → Prop
  | .branches bs => ∀ clauses ∈ bs, ∀ c ∈ clauses, c.IsWritten
  | .operator _ => True

/-- **All clauses of a piece of a rule text are written**, and what it is declared
for is a name. -/
def Part.IsWritten : Part K → Prop
  | .declaration d => RuleText.IsName d.name ∧ d.body.IsWritten
  | .body b => b.IsWritten
  | .operator _ => True
  | .branches bs => ∀ clauses ∈ bs, ∀ c ∈ clauses, c.IsWritten
  | .sequence clauses => ∀ c ∈ clauses, c.IsWritten
  | .clause c => c.IsWritten

namespace RuleText

/-- What an identifier stands for is written if the identifier is a name. -/
theorem Names.isWritten {x : String} {d : Bool} {c : Clause K}
    (h : Names x d c) (hx : IsName x) : c.IsWritten := by
  cases h with
  | kind => exact .token
  | other hnone => exact .reference hx hnone

theorem Suffixed.isWritten {b c : Clause K} {kind : RuleKind}
    (h : Suffixed b kind c) (hb : b.IsWritten) : c.IsWritten := by
  cases h with
  | question => exact .optional hb
  | star => exact .star hb
  | plus => exact .plus hb

theorem Joined.isWritten {cs : List (Clause K)} {c : Clause K}
    (h : Joined cs c) (hcs : ∀ c ∈ cs, c.IsWritten) : c.IsWritten := by
  cases h with
  | one => exact hcs _ List.mem_cons_self
  | many => exact .group (Nat.le_add_left 2 _) hcs

/-- Branches of written clauses are written as one clause each. -/
theorem isWritten_of_joined {bs : List (List (Clause K))} {cs : List (Clause K)}
    (h : List.Forall₂ Joined bs cs) (hbs : ∀ b ∈ bs, ∀ c ∈ b, c.IsWritten) :
    ∀ c ∈ cs, c.IsWritten := by
  induction h with
  | nil => exact fun _ h => absurd h List.not_mem_nil
  | cons h _ ih =>
    obtain ⟨hb, hbs⟩ := List.forall_mem_cons.mp hbs
    exact List.forall_mem_cons.mpr ⟨h.isWritten hb, ih hbs⟩

theorem Enclosed.isWritten {bs : List (List (Clause K))} {c : Clause K}
    (h : Enclosed bs c) (hbs : ∀ b ∈ bs, ∀ c ∈ b, c.IsWritten) :
    c.IsWritten := by
  cases h with
  | one hjoined => exact hjoined.isWritten (hbs _ List.mem_cons_self)
  | many hjoined =>
    refine .choice ?_ (isWritten_of_joined hjoined hbs)
    rw [← hjoined.length_eq]
    exact Nat.le_add_left 2 _

/-- **What tokens spell is written** if the identifiers among them are names. -/
theorem Spells.isWritten {sym : Symbol} {ts : List (Token RuleKind)}
    {part : Part K} (h : Spells sym ts part)
    (hnames : ∀ t ∈ ts, t.kind = .ident → IsName t.text) : part.IsWritten := by
  induction h with
  | rule hx _ _ ih =>
    simp only [List.forall_mem_cons] at hnames
    exact ⟨hnames.1 hx, ih hnames.2.2⟩
  | ruleEnd hx _ _ _ ih =>
    simp only [List.forall_mem_cons, List.forall_mem_append] at hnames
    exact ⟨hnames.1 hx, ih hnames.2.2.1⟩
  | operatorBody | operator | directed => trivial
  | emptyBody =>
    exact List.forall_mem_singleton.mpr fun _ h => absurd h List.not_mem_nil
  | branchesBody _ ih | clause _ ih => exact ih hnames
  | branch _ ih => exact List.forall_mem_singleton.mpr (ih hnames)
  | last _ ih => exact List.forall_mem_singleton.mpr (ih hnames)
  | branches _ _ _ ih ih' =>
    simp only [List.forall_mem_append, List.forall_mem_cons] at hnames
    exact List.forall_mem_cons.mpr ⟨ih hnames.1, ih' hnames.2.2⟩
  | sequence _ _ ih ih' =>
    rw [List.forall_mem_append] at hnames
    exact List.forall_mem_cons.mpr ⟨ih hnames.1, ih' hnames.2⟩
  | suffixed _ hc ih =>
    rw [List.forall_mem_append] at hnames
    exact hc.isWritten (ih hnames.1)
  | name hx hc => exact hc.isWritten (hnames _ List.mem_cons_self hx)
  | discarded hx _ hc => exact hc.isWritten (hnames _ List.mem_cons_self hx)
  | parentheses _ _ _ hc ih =>
    simp only [List.forall_mem_cons, List.forall_mem_append] at hnames
    exact hc.isWritten (ih hnames.2.1)

/-- **What a rule text declares is written.** -/
theorem isWritten_of_parse {text : String} {d : Declaration K}
    (h : parse text = .ok (.ok d)) : IsName d.name ∧ d.body.IsWritten := by
  obtain ⟨tokens, hread, hspells⟩ := exists_spells_of_parse h
  obtain ⟨hcuts, _⟩ := Lexicon.read_eq_ok hread
  refine hspells.isWritten fun t ht hident => isName_of_cuts hcuts ?_
  rw [← hident]
  exact List.mem_map_of_mem (f := Token.word) ht

end RuleText

end Descent
