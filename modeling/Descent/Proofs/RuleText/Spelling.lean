import Descent.Proofs.Grammar.Language
import Descent.Proofs.RuleText.Notation

/-!
# Whatever the grammar of rule texts allows spells something

The grammar that rule texts are parsed by and the notation of rule texts have the
same symbols. Each rule of the grammar turns tokens that spell something for its
references into tokens that spell something for its head; so the tokens of every
tree that the grammar allows are a sentence of the notation
(`RuleText.exists_spells`).
-/

namespace Descent.RuleText

open Clause (FillAll)

variable {K : Type} [TokenKind K]

/-! ## What a part spells -/

/-- A part is read as what its symbol says. -/
def Symbol.Fits : Symbol → Part K → Prop
  | .rule, part => ∃ d, part = .declaration d
  | .body, part => ∃ b, part = .body b
  | .operator, part => ∃ op, part = .operator op
  | .alternation, part => ∃ bs, part = .branches bs
  | .sequence, part => ∃ cs, part = .sequence cs
  | .clause, part | .atom, part => ∃ c, part = .clause c

variable {sym : Symbol} {ts : List (Token RuleKind)} {part : Part K}

theorem Spells.fits (h : Spells sym ts part) : sym.Fits part := by
  cases h <;> exact ⟨_, rfl⟩

/-- A sequence has a clause. -/
theorem Spells.sequence_ne_nil {cs : List (Clause K)}
    (h : Spells .sequence ts (.sequence cs)) : cs ≠ [] := by
  cases h <;> exact List.cons_ne_nil _ _

/-- There is a branch, and every branch has a clause. -/
theorem Spells.branches_ne_nil {bs : List (List (Clause K))}
    (h : Spells .alternation ts (.branches bs)) :
    bs ≠ [] ∧ ∀ b ∈ bs, b ≠ [] := by
  generalize hsym : Symbol.alternation = sym at h
  generalize hpart : Part.branches bs = part at h
  induction h generalizing bs with
  | branch h =>
    obtain rfl := Part.branches.inj hpart
    exact ⟨List.cons_ne_nil _ _, List.forall_mem_singleton.mpr h.sequence_ne_nil⟩
  | branches h _ _ _ ih =>
    obtain rfl := Part.branches.inj hpart
    exact ⟨List.cons_ne_nil _ _,
      List.forall_mem_cons.mpr ⟨h.sequence_ne_nil, (ih rfl rfl).2⟩⟩
  | _ => cases hsym

theorem exists_names (text : String) (d : Bool) :
    ∃ c : Clause K, Names text d c := by
  cases h : TokenKind.ofName? (K := K) text with
  | none => exact ⟨_, .other h⟩
  | some k => exact ⟨_, .kind h⟩

omit [TokenKind K] in
theorem exists_joined {cs : List (Clause K)} (h : cs ≠ []) :
    ∃ c, Joined cs c := by
  match cs with
  | [] => exact absurd rfl h
  | [c] => exact ⟨_, .one⟩
  | c :: d :: cs => exact ⟨_, .many⟩

omit [TokenKind K] in
theorem exists_forall₂_joined {bs : List (List (Clause K))}
    (h : ∀ b ∈ bs, b ≠ []) : ∃ cs, List.Forall₂ Joined bs cs := by
  induction bs with
  | nil => exact ⟨[], .nil⟩
  | cons b bs ih =>
    obtain ⟨hb, hbs⟩ := List.forall_mem_cons.mp h
    obtain ⟨c, hc⟩ := exists_joined hb
    obtain ⟨cs, hcs⟩ := ih hbs
    exact ⟨c :: cs, .cons hc hcs⟩

omit [TokenKind K] in
theorem exists_enclosed {bs : List (List (Clause K))} (hne : bs ≠ [])
    (h : ∀ b ∈ bs, b ≠ []) : ∃ c, Enclosed bs c := by
  match bs with
  | [] => exact absurd rfl hne
  | [b] =>
    obtain ⟨c, hc⟩ := exists_joined (h b List.mem_cons_self)
    exact ⟨c, .one hc⟩
  | b :: b' :: bs =>
    obtain ⟨cs, hcs⟩ := exists_forall₂_joined h
    exact ⟨.choice cs, .many hcs⟩

/-! ## The rules of the grammar -/

/-- The rules that the grammar of rule texts has for a symbol. -/
def rulesOf (K : Type) [TokenKind K] (sym : Symbol) :
    List (Rule RuleKind (Part K)) :=
  (rules K).filterMap fun (head, rule) =>
    if head = sym.name then some rule else none

/-- **The grammar of rule texts has the symbols of the notation**, and no
operators. -/
theorem get?_symbol (sym : Symbol) :
    (grammar K).get? sym.name = some ⟨sym.name, rulesOf K sym, []⟩ := by
  cases sym <;> rfl

theorem names_grammar :
    (grammar K).names = ["rule", "body", "operator", "alternation", "sequence",
      "clause", "atom"] := rfl

/-- What the grammar declares is a symbol of the notation. -/
theorem exists_symbol {x : String} {n : NonTerminal RuleKind (Part K)}
    (h : (grammar K).get? x = some n) :
    ∃ sym : Symbol, x = sym.name ∧ n = ⟨sym.name, rulesOf K sym, []⟩ := by
  have hx : x ∈ (grammar K).names := by
    rw [← Grammar.contains_iff_mem_names, Grammar.contains_eq_isSome_get?, h]
    rfl
  have hsym : ∃ sym : Symbol, x = sym.name := by
    simp only [names_grammar, List.mem_cons, List.not_mem_nil, or_false] at hx
    rcases hx with rfl | rfl | rfl | rfl | rfl | rfl | rfl
    exacts [⟨.rule, rfl⟩, ⟨.body, rfl⟩, ⟨.operator, rfl⟩, ⟨.alternation, rfl⟩,
      ⟨.sequence, rfl⟩, ⟨.clause, rfl⟩, ⟨.atom, rfl⟩]
  obtain ⟨sym, rfl⟩ := hsym
  exact ⟨sym, rfl, Option.some.inj (h.symm.trans (get?_symbol sym))⟩

theorem Symbol.name_injective : Function.Injective Symbol.name := by
  intro sym sym' h
  cases sym <;> cases sym' <;> simp_all [Symbol.name]

/-- Some tokens spell something as the part of a name. -/
def SpellsName (K : Type) [TokenKind K] (x : String)
    (ts : List (Token RuleKind)) : Prop :=
  ∃ sym : Symbol, x = sym.name ∧ ∃ part : Part K, Spells sym ts part

theorem spellsName_iff (sym : Symbol) :
    SpellsName K sym.name ts ↔ ∃ part : Part K, Spells sym ts part := by
  constructor
  · rintro ⟨sym', hname, h⟩
    obtain rfl := Symbol.name_injective hname
    exact h
  · exact fun h => ⟨sym, rfl, h⟩

/-! ## What each rule passes on -/

theorem fills_kept {P : String → List (Token RuleKind) → Prop} {k : RuleKind} :
    (kept k).Fills P ts ↔ ∃ t, t.kind = k ∧ ts = [t] := Iff.rfl

theorem fills_oneOf {P : String → List (Token RuleKind) → Prop}
    {kinds : List RuleKind} :
    (oneOf kinds).Fills P ts ↔ ∃ t, t.kind ∈ kinds ∧ ts = [t] := by
  unfold oneOf
  rw [Clause.Fills]
  induction kinds with
  | nil => simp [Clause.FillAny]
  | cons k ks ih =>
    rw [List.map_cons, Clause.FillAny, ih, fills_kept]
    constructor
    · rintro (⟨t, hk, rfl⟩ | ⟨t, hk, rfl⟩)
      · exact ⟨t, hk ▸ List.mem_cons_self, rfl⟩
      · exact ⟨t, List.mem_cons_of_mem _ hk, rfl⟩
    · rintro ⟨t, hk, rfl⟩
      rcases List.mem_cons.mp hk with hk | hk
      · exact .inl ⟨t, hk, rfl⟩
      · exact .inr ⟨t, hk, rfl⟩

theorem exists_declares {k : RuleKind}
    (h : k ∈ [RuleKind.infixed, .prefixed, .postfixed]) :
    ∃ affix, Declares k affix := by
  simp only [List.mem_cons, List.not_mem_nil, or_false] at h
  rcases h with rfl | rfl | rfl
  exacts [⟨_, .infixed⟩, ⟨_, .prefixed⟩, ⟨_, .postfixed⟩]

theorem exists_directs {k : RuleKind} (h : k ∈ [RuleKind.left, .right]) :
    ∃ associativity, Directs k associativity := by
  simp only [List.mem_cons, List.not_mem_nil, or_false] at h
  rcases h with rfl | rfl
  exacts [⟨_, .left⟩, ⟨_, .right⟩]

omit [TokenKind K] in
theorem exists_suffixed (c : Clause K) {k : RuleKind}
    (h : k ∈ [RuleKind.question, .star, .plus]) : ∃ d, Suffixed c k d := by
  simp only [List.mem_cons, List.not_mem_nil, or_false] at h
  rcases h with rfl | rfl | rfl
  exacts [⟨_, .question⟩, ⟨_, .star⟩, ⟨_, .plus⟩]

/-- What fills the clauses of a rule text spells a rule text. -/
theorem spells_rule
    (h : FillAll (SpellsName K)
      [kept .ident, dropped .colon, name "body", .optional (dropped .semicolon)]
      ts) :
    ∃ part : Part K, Spells .rule ts part := by
  obtain ⟨_, _, ⟨x, hx, rfl⟩, ⟨_, _, ⟨colon, hcolon, rfl⟩,
    ⟨us, _, hbody, ⟨_, _, hend, rfl, rfl⟩, rfl⟩, rfl⟩, rfl⟩ := h
  obtain ⟨part, hbody⟩ := (spellsName_iff .body).mp hbody
  obtain ⟨body, rfl⟩ := hbody.fits
  refine ⟨.declaration ⟨x.text, body⟩, ?_⟩
  rcases hend with rfl | ⟨semicolon, hsemicolon, rfl⟩
  · simpa using Spells.rule hx hcolon hbody
  · simpa using Spells.ruleEnd hx hcolon hbody hsemicolon

/-- What fills the clauses of an operator spells an operator. -/
theorem spells_operator
    (h : FillAll (SpellsName K)
      [oneOf [.infixed, .prefixed, .postfixed], kept .ident,
        .optional (oneOf [.left, .right]), kept .int] ts) :
    ∃ part : Part K, Spells .operator ts part := by
  obtain ⟨_, _, hword, ⟨_, _, ⟨symbol, hsymbol, rfl⟩, ⟨_, _, hdirection,
    ⟨_, _, ⟨precedence, hprecedence, rfl⟩, rfl, rfl⟩, rfl⟩, rfl⟩, rfl⟩ := h
  obtain ⟨word, hkind, rfl⟩ := fills_oneOf.mp hword
  obtain ⟨affix, hdeclares⟩ := exists_declares hkind
  rcases hdirection with rfl | hdirection
  · exact ⟨_, .operator hdeclares hsymbol hprecedence⟩
  · obtain ⟨direction, hkind, rfl⟩ := fills_oneOf.mp hdirection
    obtain ⟨associativity, hdirects⟩ := exists_directs hkind
    exact ⟨_, .directed hdeclares hsymbol hdirects hprecedence⟩

/-- What fills the clauses of an alternation spells an alternation. -/
theorem spells_alternation
    (h : FillAll (SpellsName K)
      [name "sequence", .star (.group [dropped .pipe, name "sequence"])] ts) :
    ∃ part : Part K, Spells .alternation ts part := by
  obtain ⟨us, _, hfirst, ⟨_, _, ⟨tss, hmore, rfl⟩, rfl, rfl⟩, rfl⟩ := h
  rw [List.append_nil]
  induction tss generalizing us with
  | nil =>
    obtain ⟨part, hfirst⟩ := (spellsName_iff .sequence).mp hfirst
    obtain ⟨cs, rfl⟩ := hfirst.fits
    rw [List.flatten_nil, List.append_nil]
    exact ⟨_, .branch hfirst⟩
  | cons vs tss ih =>
    obtain ⟨⟨_, _, ⟨bar, hbar, rfl⟩, ⟨ws, _, hnext, rfl, rfl⟩, rfl⟩, hothers⟩ :=
      List.forall_mem_cons.mp hmore
    obtain ⟨part, hfirst⟩ := (spellsName_iff .sequence).mp hfirst
    obtain ⟨cs, rfl⟩ := hfirst.fits
    obtain ⟨part, hrest⟩ := ih ws hnext hothers
    obtain ⟨bs, rfl⟩ := hrest.fits
    refine ⟨.branches (cs :: bs), ?_⟩
    simpa using Spells.branches hfirst hbar hrest

/-- What fills the clauses of a sequence spells a sequence. -/
theorem spells_sequence
    (h : FillAll (SpellsName K) [.plus (name "clause")] ts) :
    ∃ part : Part K, Spells .sequence ts part := by
  obtain ⟨_, _, ⟨tss, hne, hall, rfl⟩, rfl, rfl⟩ := h
  rw [List.append_nil]
  induction tss with
  | nil => exact absurd rfl hne
  | cons us tss ih =>
    obtain ⟨hfirst, hall⟩ := List.forall_mem_cons.mp hall
    obtain ⟨part, hfirst⟩ := (spellsName_iff .clause).mp hfirst
    obtain ⟨c, rfl⟩ := hfirst.fits
    cases tss with
    | nil =>
      rw [List.flatten_singleton]
      exact ⟨_, .last hfirst⟩
    | cons vs tss =>
      obtain ⟨part, hrest⟩ := ih (List.cons_ne_nil _ _) hall
      obtain ⟨cs, rfl⟩ := hrest.fits
      exact ⟨_, .sequence hfirst hrest⟩

/-- What fills the clauses of a clause spells a clause. -/
theorem spells_clause
    (h : FillAll (SpellsName K)
      [name "atom", .optional (oneOf [.question, .star, .plus])] ts) :
    ∃ part : Part K, Spells .clause ts part := by
  obtain ⟨us, _, hatom, ⟨_, _, hsuffix, rfl, rfl⟩, rfl⟩ := h
  obtain ⟨part, hatom⟩ := (spellsName_iff .atom).mp hatom
  obtain ⟨c, rfl⟩ := hatom.fits
  rcases hsuffix with rfl | hsuffix
  · refine ⟨.clause c, ?_⟩
    simpa using Spells.clause hatom
  · obtain ⟨suffix, hkind, rfl⟩ := fills_oneOf.mp hsuffix
    obtain ⟨d, hd⟩ := exists_suffixed c hkind
    exact ⟨_, .suffixed hatom hd⟩

/-- What fills the clauses of an identifier spells an atom. -/
theorem spells_name
    (h : FillAll (SpellsName K) [kept .ident, .optional (kept .discard)] ts) :
    ∃ part : Part K, Spells .atom ts part := by
  obtain ⟨_, _, ⟨x, hx, rfl⟩, ⟨_, _, hmark, rfl, rfl⟩, rfl⟩ := h
  rcases hmark with rfl | ⟨mark, hmark, rfl⟩
  · obtain ⟨c, hc⟩ := exists_names (K := K) x.text false
    exact ⟨_, .name hx hc⟩
  · obtain ⟨c, hc⟩ := exists_names (K := K) x.text true
    exact ⟨_, .discarded hx hmark hc⟩

/-- What fills the clauses of parentheses spells an atom. -/
theorem spells_parentheses
    (h : FillAll (SpellsName K)
      [dropped .lparen, name "alternation", dropped .rparen] ts) :
    ∃ part : Part K, Spells .atom ts part := by
  obtain ⟨_, _, ⟨left, hleft, rfl⟩, ⟨us, _, hbranches,
    ⟨_, _, ⟨right, hright, rfl⟩, rfl, rfl⟩, rfl⟩, rfl⟩ := h
  obtain ⟨part, hbranches⟩ := (spellsName_iff .alternation).mp hbranches
  obtain ⟨bs, rfl⟩ := hbranches.fits
  obtain ⟨hne, hall⟩ := hbranches.branches_ne_nil
  obtain ⟨c, hc⟩ := exists_enclosed hne hall
  exact ⟨_, .parentheses hleft hbranches hright hc⟩

/-- **Each rule passes on**: tokens that spell something for its references spell
something for its head. -/
theorem spells_of_rule (sym : Symbol) :
    ∀ rule ∈ rulesOf K sym, ∀ ts, FillAll (SpellsName K) rule.clauses ts →
      ∃ part : Part K, Spells sym ts part := by
  cases sym with
  | rule => exact List.forall_mem_singleton.mpr fun _ => spells_rule
  | body =>
    refine List.forall_mem_cons.mpr ⟨?_, List.forall_mem_cons.mpr ⟨?_,
      List.forall_mem_singleton.mpr ?_⟩⟩
    · rintro _ ⟨us, _, h, rfl, rfl⟩
      obtain ⟨part, h⟩ := (spellsName_iff .operator).mp h
      obtain ⟨op, rfl⟩ := h.fits
      rw [List.append_nil]
      exact ⟨_, .operatorBody h⟩
    · rintro _ ⟨us, _, h, rfl, rfl⟩
      obtain ⟨part, h⟩ := (spellsName_iff .alternation).mp h
      obtain ⟨bs, rfl⟩ := h.fits
      rw [List.append_nil]
      exact ⟨_, .branchesBody h⟩
    · rintro _ rfl
      exact ⟨_, .emptyBody⟩
  | operator => exact List.forall_mem_singleton.mpr fun _ => spells_operator
  | alternation => exact List.forall_mem_singleton.mpr fun _ => spells_alternation
  | sequence => exact List.forall_mem_singleton.mpr fun _ => spells_sequence
  | clause => exact List.forall_mem_singleton.mpr fun _ => spells_clause
  | atom =>
    exact List.forall_mem_cons.mpr ⟨fun _ => spells_name,
      List.forall_mem_singleton.mpr fun _ => spells_parentheses⟩

/-! ## What a parse spells -/

/-- **The tokens of a tree that the grammar allows spell something.** -/
theorem exists_spells (sym : Symbol) {us : List (Tree RuleKind (Part K))}
    (h : (grammar K).Derives (.name sym.name) us) :
    ∃ part : Part K, Spells sym (Tree.tokensAll us) part := by
  have hops : ∀ {x n}, (grammar K).get? x = some n → n.operators = [] := by
    intro x n hx
    obtain ⟨_, _, rfl⟩ := exists_symbol hx
    rfl
  have hfills := h.fills (P := SpellsName K) hops fun hx rule hrule ts hts => by
    obtain ⟨sym, rfl, rfl⟩ := exists_symbol hx
    exact (spellsName_iff sym).mpr (spells_of_rule sym rule hrule ts hts)
  exact (spellsName_iff sym).mp hfills

end Descent.RuleText
