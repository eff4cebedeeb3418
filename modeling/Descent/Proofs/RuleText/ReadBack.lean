import Descent.Proofs.RuleText.Display
import Mathlib.Data.List.Chain

/-!
# Which rules are read back from their display

Suffixes are displayed right after the clause that they belong to, without
parentheses. The notation allows one suffix on an atom. So a rule is read back
from what is displayed exactly if nowhere in it a suffix stands on a clause that
has a suffix itself (`Clause.Unstacked`): such a clause is written with the
parentheses that the display leaves out.

Words of clauses without such a suffix spell them (`RuleText.areSpelled`). In what
the notation spells no suffix stands right after another
(`RuleText.Spells.standApart`), and where none does in the words of a clause, none
stands on a suffix in the clause.
-/

namespace Descent

variable {K : Type}

namespace Clause

/-- Whether a clause is displayed with a suffix at its end. -/
def isSuffixed : Clause K → Bool
  | optional _ | star _ | plus _ => true
  | _ => false

mutual

/-- **Nowhere in a clause a suffix stands on a suffix.** -/
def Unstacked : Clause K → Prop
  | token .. | reference .. => True
  | group members => AllUnstacked members
  | choice branches => AllUnstacked branches
  | optional body | star body | plus body =>
    body.isSuffixed = false ∧ Unstacked body

/-- Nowhere in some clauses a suffix stands on a suffix. -/
def AllUnstacked : List (Clause K) → Prop
  | [] => True
  | c :: cs => Unstacked c ∧ AllUnstacked cs

end

theorem allUnstacked_iff {cs : List (Clause K)} :
    AllUnstacked cs ↔ ∀ c ∈ cs, c.Unstacked := by
  induction cs with
  | nil => simp [AllUnstacked]
  | cons c cs ih => rw [AllUnstacked, ih, List.forall_mem_cons]

mutual

/-- It can be decided whether a suffix stands on a suffix in a clause. -/
def decidableUnstacked : (c : Clause K) → Decidable c.Unstacked
  | token .. | reference .. => .isTrue trivial
  | group members => decidableAllUnstacked members
  | choice branches => decidableAllUnstacked branches
  | optional body | star body | plus body =>
    have := decidableUnstacked body
    inferInstanceAs (Decidable (body.isSuffixed = false ∧ body.Unstacked))

/-- It can be decided whether a suffix stands on a suffix in some clauses. -/
def decidableAllUnstacked :
    (cs : List (Clause K)) → Decidable (AllUnstacked cs)
  | [] => .isTrue trivial
  | c :: cs =>
    have := decidableUnstacked c
    have := decidableAllUnstacked cs
    inferInstanceAs (Decidable (c.Unstacked ∧ AllUnstacked cs))

end

instance (c : Clause K) : Decidable c.Unstacked := decidableUnstacked c

instance (cs : List (Clause K)) : Decidable (∀ c ∈ cs, c.Unstacked) :=
  have := decidableAllUnstacked cs
  decidable_of_iff (AllUnstacked cs) allUnstacked_iff

end Clause

namespace RuleText

open Clause (words)

variable [TokenKind K]

/-! ## Spelling what is displayed -/

variable {ts : List (Token RuleKind)}

/-- A token with a given word. -/
theorem exists_token_of_map {w : RuleKind × String}
    {ws : List (RuleKind × String)} (h : ts.map Token.word = w :: ws) :
    ∃ t us, ts = t :: us ∧ t.kind = w.1 ∧ t.text = w.2 ∧
      us.map Token.word = ws := by
  obtain ⟨t, us, rfl, rfl, hus⟩ := List.map_eq_cons_iff.mp h
  exact ⟨t, us, rfl, rfl, rfl, hus⟩

/-- **The words of a clause spell it**, as an atom if it has no suffix. -/
def AreSpelled (c : Clause K) : Prop :=
  ∀ ts : List (Token RuleKind), ts.map Token.word = words c →
    Spells .clause ts (.clause c) ∧
      (c.isSuffixed = false → Spells .atom ts (.clause c))

/-- The words of clauses one after the other spell their sequence. -/
theorem spells_sequence_words {cs : List (Clause K)} (hne : cs ≠ [])
    (hall : ∀ c ∈ cs, AreSpelled c)
    (h : ts.map Token.word = [].intercalate (cs.map words)) :
    Spells .sequence ts (.sequence cs) := by
  induction cs generalizing ts with
  | nil => exact absurd rfl hne
  | cons c cs ih =>
    obtain ⟨hc, hcs⟩ := List.forall_mem_cons.mp hall
    cases cs with
    | nil =>
      rw [List.map_cons, List.map_nil, List.intercalate_singleton] at h
      exact .last (hc ts h).1
    | cons d ds =>
      rw [List.map_cons, List.map_cons, List.intercalate_cons_cons,
        List.append_nil] at h
      obtain ⟨us, vs, rfl, hus, hvs⟩ := List.map_eq_append_iff.mp h
      exact .sequence (hc us hus).1 (ih (List.cons_ne_nil _ _) hcs hvs)

/-- The words of clauses with bars between them spell as many branches. -/
theorem spells_branches_words {bs : List (Clause K)} (hne : bs ≠ [])
    (hall : ∀ b ∈ bs, AreSpelled b)
    (h : ts.map Token.word = [(.pipe, "|")].intercalate (bs.map words)) :
    Spells .alternation ts (.branches (bs.map ([·]))) := by
  induction bs generalizing ts with
  | nil => exact absurd rfl hne
  | cons b bs ih =>
    obtain ⟨hb, hbs⟩ := List.forall_mem_cons.mp hall
    cases bs with
    | nil =>
      rw [List.map_cons, List.map_nil, List.intercalate_singleton] at h
      exact .branch (.last (hb ts h).1)
    | cons d ds =>
      rw [List.map_cons, List.map_cons, List.intercalate_cons_cons,
        List.append_assoc] at h
      obtain ⟨us, vs, rfl, hus, hvs⟩ := List.map_eq_append_iff.mp h
      obtain ⟨bar, vs, rfl, hbar, _, hvs⟩ := exists_token_of_map hvs
      exact .branches (.last (hb us hus).1) hbar
        (ih (List.cons_ne_nil _ _) hbs hvs)

/-- Parentheses around tokens. -/
theorem exists_tokens_of_parenthesized {ws : List (RuleKind × String)}
    (h : ts.map Token.word = Clause.parenthesized ws) :
    ∃ left us right, ts = left :: (us ++ [right]) ∧ left.kind = .lparen ∧
      us.map Token.word = ws ∧ right.kind = .rparen := by
  obtain ⟨left, vs, rfl, hleft, _, hvs⟩ := exists_token_of_map h
  obtain ⟨us, vs, rfl, hus, hvs⟩ := List.map_eq_append_iff.mp hvs
  obtain ⟨right, vs, rfl, hright, _, hvs⟩ := exists_token_of_map hvs
  obtain rfl := List.map_eq_nil_iff.mp hvs
  exact ⟨left, us, right, rfl, hleft, hus, hright⟩

/-- An atom is spelled as a clause as well. -/
theorem areSpelled_of_atom {c : Clause K}
    (h : ∀ ts : List (Token RuleKind), ts.map Token.word = words c →
      Spells .atom ts (.clause c)) : AreSpelled c :=
  fun ts hts => ⟨.clause (h ts hts), fun _ => h ts hts⟩

/-- An identifier and its mark spell what the identifier stands for. -/
theorem spells_marked {x : String} {d : Bool} {c : Clause K}
    (hc : Names x d c)
    (h : ts.map Token.word = (.ident, x) :: Clause.markWords d) :
    Spells .atom ts (.clause c) := by
  obtain ⟨t, us, rfl, ht, rfl, hus⟩ := exists_token_of_map h
  cases d with
  | false =>
    obtain rfl := List.map_eq_nil_iff.mp hus
    exact .name ht hc
  | true =>
    obtain ⟨mark, vs, rfl, hmark, _, hvs⟩ := exists_token_of_map hus
    obtain rfl := List.map_eq_nil_iff.mp hvs
    exact .discarded ht hmark hc

omit [TokenKind K] in
theorem Suffixed.isSuffixed {b c : Clause K} {kind : RuleKind}
    (h : Suffixed b kind c) : c.isSuffixed = true := by
  cases h <;> rfl

omit [TokenKind K] in
/-- Branches of a single clause each are their clauses. -/
theorem joined_singletons (bs : List (Clause K)) :
    List.Forall₂ Joined (bs.map ([·])) bs :=
  List.forall₂_map_left_iff.mpr (List.forall₂_same.mpr fun _ _ => .one)

/-- An atom with a suffix is spelled by its words and the suffix. -/
theorem areSpelled_suffixed {b c : Clause K} {kind : RuleKind} {sign : String}
    (hb : AreSpelled b) (hatom : b.isSuffixed = false) (hc : Suffixed b kind c)
    (hwords : words c = words b ++ [(kind, sign)]) : AreSpelled c := by
  intro ts h
  rw [hwords] at h
  obtain ⟨us, vs, rfl, hus, hvs⟩ := List.map_eq_append_iff.mp h
  obtain ⟨suffix, vs, rfl, hsuffix, _, hvs⟩ := exists_token_of_map hvs
  obtain rfl := List.map_eq_nil_iff.mp hvs
  obtain rfl : suffix.kind = kind := hsuffix
  refine ⟨.suffixed ((hb us hus).2 hatom) hc, fun hnot => ?_⟩
  rw [hc.isSuffixed] at hnot
  cases hnot

/-- **The words of a clause spell it** if nowhere in it a suffix stands on a
suffix. -/
theorem areSpelled (hK : TokenKind.IsNameable K) {c : Clause K}
    (h : c.IsWritten) (hflat : c.Unstacked) : AreSpelled c := by
  induction h with
  | token =>
    exact areSpelled_of_atom fun ts =>
      spells_marked (.kind (hK.ofName?_name _))
  | reference _ hx => exact areSpelled_of_atom fun ts => spells_marked (.other hx)
  | @group cs hlen _ ih =>
    have hall := Clause.allUnstacked_iff.mp hflat
    refine areSpelled_of_atom fun ts hts => ?_
    rw [words, Clause.wordsAll_eq_map] at hts
    obtain ⟨left, us, right, rfl, hleft, hus, hright⟩ :=
      exists_tokens_of_parenthesized hts
    match cs, hlen with
    | c :: d :: cs, _ =>
      exact .parentheses hleft (.branch (spells_sequence_words
        (List.cons_ne_nil _ _) (fun e he => ih e he (hall e he)) hus))
        hright (.one .many)
  | @choice bs hlen _ ih =>
    have hall := Clause.allUnstacked_iff.mp hflat
    refine areSpelled_of_atom fun ts hts => ?_
    rw [words, Clause.wordsAll_eq_map] at hts
    obtain ⟨left, us, right, rfl, hleft, hus, hright⟩ :=
      exists_tokens_of_parenthesized hts
    match bs, hlen with
    | b :: b' :: bs, _ =>
      exact .parentheses hleft (spells_branches_words
        (List.cons_ne_nil _ _) (fun e he => ih e he (hall e he)) hus)
        hright (.many (joined_singletons (b :: b' :: bs)))
  | optional _ ih => exact areSpelled_suffixed (ih hflat.2) hflat.1 .question rfl
  | star _ ih => exact areSpelled_suffixed (ih hflat.2) hflat.1 .star rfl
  | plus _ ih => exact areSpelled_suffixed (ih hflat.2) hflat.1 .plus rfl

/-! ## Suffixes stand apart -/

/-- The kinds of suffixes. -/
def suffixes : List RuleKind := [.question, .star, .plus]

/-- **Two words are not both suffixes.** -/
def Apart (w w' : RuleKind × String) : Prop :=
  w.1 ∉ suffixes ∨ w'.1 ∉ suffixes

/-- No suffix of some words stands right after another. -/
abbrev StandApart (ws : List (RuleKind × String)) : Prop := ws.IsChain Apart

variable {ws vs : List (RuleKind × String)} {w : RuleKind × String}

/-- Words may stand after one that is no suffix. -/
theorem standApart_cons (hw : w.1 ∉ suffixes) (h : StandApart ws) :
    StandApart (w :: ws) :=
  List.isChain_cons.mpr ⟨fun _ _ => .inl hw, h⟩

/-- Words that begin with no suffix may stand after any others. -/
theorem standApart_append (hws : StandApart ws) (hvs : StandApart vs)
    (h : ∀ v ∈ vs.head?, v.1 ∉ suffixes) : StandApart (ws ++ vs) :=
  List.isChain_append.mpr ⟨hws, hvs, fun _ _ v hv => .inr (h v hv)⟩

/-- A token of a kind that is no suffix. -/
theorem word_not_mem {t : Token RuleKind} {kind : RuleKind} (h : t.kind = kind)
    (hkind : kind ∉ suffixes) : t.word.1 ∉ suffixes := by
  rw [← h] at hkind
  exact hkind

/-- A kind of a list that has no suffix in it is no suffix. -/
theorem not_suffix_of_mem {kind : RuleKind} {kinds : List RuleKind}
    (h : kind ∈ kinds) (hdisj : ∀ k ∈ kinds, k ∉ suffixes) : kind ∉ suffixes :=
  hdisj kind h

/-- One word that is no suffix may stand after any others. -/
theorem standApart_concat (hws : StandApart ws) (hw : w.1 ∉ suffixes) :
    StandApart (ws ++ [w]) := by
  refine standApart_append hws (.singleton w) ?_
  rintro _ ⟨⟩
  exact hw

/-- An atom does not end with a suffix. -/
theorem Spells.getLast_not_mem {c : Clause K}
    (h : Spells .atom ts (.clause c)) :
    ∀ w ∈ (ts.map Token.word).getLast?, w.1 ∉ suffixes := by
  cases h with
  | name hx =>
    rintro _ ⟨⟩
    exact word_not_mem hx (by decide)
  | discarded _ hmark =>
    rintro _ ⟨⟩
    exact word_not_mem hmark (by decide)
  | parentheses _ _ hclose =>
    rw [← List.cons_append, List.map_append, List.map_singleton,
      List.getLast?_concat]
    rintro _ ⟨⟩
    exact word_not_mem hclose (by decide)

/-- **In a sentence of the notation suffixes stand apart.** -/
theorem Spells.standApart {sym : Symbol} {part : Part K}
    (h : Spells sym ts part) : StandApart (ts.map Token.word) := by
  induction h with
  | rule hx hcolon _ ih =>
    exact standApart_cons (word_not_mem hx (by decide))
      (standApart_cons (word_not_mem hcolon (by decide)) ih)
  | ruleEnd hx hcolon _ hend ih =>
    rw [List.map_cons, List.map_cons, List.map_append]
    exact standApart_cons (word_not_mem hx (by decide))
      (standApart_cons (word_not_mem hcolon (by decide))
        (standApart_concat ih (word_not_mem hend (by decide))))
  | operatorBody _ ih | branchesBody _ ih | branch _ ih | last _ ih
  | clause _ ih => exact ih
  | emptyBody => exact .nil
  | @operator word _ _ _ hword hx =>
    have hdeclaring : word.word.1 ∉ suffixes :=
      not_suffix_of_mem hword.mem (by decide)
    exact standApart_cons hdeclaring
      (standApart_cons (word_not_mem hx (by decide)) (.singleton _))
  | @directed word _ direction _ _ _ hword hx hdirection =>
    have hdeclaring : word.word.1 ∉ suffixes :=
      not_suffix_of_mem hword.mem (by decide)
    have hdirecting : direction.word.1 ∉ suffixes :=
      not_suffix_of_mem hdirection.mem (by decide)
    exact standApart_cons hdeclaring
      (standApart_cons (word_not_mem hx (by decide))
        (standApart_cons hdirecting (.singleton _)))
  | branches _ hbar _ ih ih' =>
    rw [List.map_append, List.map_cons]
    refine standApart_append ih
      (standApart_cons (word_not_mem hbar (by decide)) ih') ?_
    rintro _ ⟨⟩
    exact word_not_mem hbar (by decide)
  | sequence _ h' ih ih' =>
    obtain ⟨t, us, rfl, ht⟩ := h'.exists_cons (by decide)
    rw [List.map_append]
    refine standApart_append ih ih' ?_
    rintro _ ⟨⟩
    exact not_suffix_of_mem ht (by decide)
  | suffixed h _ ih =>
    rw [List.map_append]
    exact List.isChain_append.mpr ⟨ih, .singleton _,
      fun w hw _ _ => .inl (h.getLast_not_mem w hw)⟩
  | name => exact .singleton _
  | discarded hx =>
    exact standApart_cons (word_not_mem hx (by decide)) (.singleton _)
  | parentheses hopen _ hclose _ ih =>
    rw [List.map_cons, List.map_append]
    exact standApart_cons (word_not_mem hopen (by decide))
      (standApart_concat ih (word_not_mem hclose (by decide)))

/-- A clause that has a suffix is displayed with one at its end. -/
theorem exists_suffix_of_isSuffixed {c : Clause K} (h : c.isSuffixed = true) :
    ∃ ws w, words c = ws ++ [w] ∧ w.1 ∈ suffixes := by
  cases c with
  | token | reference | group | choice => cases h
  | optional b => exact ⟨words b, (.question, "?"), rfl, by decide⟩
  | star b => exact ⟨words b, (.star, "*"), rfl, by decide⟩
  | plus b => exact ⟨words b, (.plus, "+"), rfl, by decide⟩

/-- A suffix that stands apart stands on a clause without one. -/
theorem isSuffixed_of_standApart {c : Clause K} (hw : w.1 ∈ suffixes)
    (h : StandApart (words c ++ [w])) : c.isSuffixed = false := by
  rw [Bool.eq_false_iff]
  intro hsuffixed
  obtain ⟨ws, v, hwords, hv⟩ := exists_suffix_of_isSuffixed hsuffixed
  rw [hwords] at h
  obtain ⟨_, _, hlast⟩ := List.isChain_append.mp h
  rcases hlast v List.getLast?_concat w rfl with hnot | hnot
  · exact hnot hv
  · exact hnot hw

omit [TokenKind K] in
/-- A member of a list with separators is a piece of it. -/
theorem infix_intercalate {α : Type} (sep : List α) {a : List α}
    {as : List (List α)} (ha : a ∈ as) : a <:+: sep.intercalate as := by
  induction as with
  | nil => exact absurd ha List.not_mem_nil
  | cons b bs ih =>
    cases bs with
    | nil =>
      obtain rfl := List.mem_singleton.mp ha
      rw [List.intercalate_singleton]
    | cons d ds =>
      rw [List.intercalate_cons_cons]
      rcases List.mem_cons.mp ha with rfl | ha
      · rw [List.append_assoc]
        exact List.infix_append' [] _ _
      · exact (ih ha).trans (List.suffix_append _ _).isInfix

/-- Suffixes that stand apart in a list with separators do so in its members. -/
theorem standApart_of_mem {cs : List (Clause K)} {c : Clause K} (hc : c ∈ cs)
    (h : StandApart (vs.intercalate (cs.map words))) : StandApart (words c) := by
  obtain ⟨before, after, heq⟩ := infix_intercalate vs (List.mem_map_of_mem hc)
  rw [← heq] at h
  exact (List.isChain_append.mp (List.isChain_append.mp h).1).2.1

/-- Suffixes that stand apart in a list between parentheses do so in its
members. -/
theorem standApart_of_parenthesized {cs : List (Clause K)} {c : Clause K}
    (hc : c ∈ cs)
    (h : StandApart (Clause.parenthesized (vs.intercalate (Clause.wordsAll cs)))) :
    StandApart (words c) := by
  rw [Clause.wordsAll_eq_map] at h
  exact standApart_of_mem hc (List.isChain_append.mp (List.isChain_cons.mp h).2).1

/-- **Where suffixes stand apart in the words of a clause**, none of them stands
on a clause that has one. -/
theorem unstacked_of_standApart {c : Clause K} (hc : c.IsWritten)
    (h : StandApart (words c)) : c.Unstacked := by
  have hbody {b : Clause K} {w : RuleKind × String}
      (hb : StandApart (words b ++ [w])) : StandApart (words b) :=
    (List.isChain_append.mp hb).1
  induction hc with
  | token | reference => trivial
  | group _ _ ih | choice _ _ ih =>
    exact Clause.allUnstacked_iff.mpr fun c hc =>
      ih c hc (standApart_of_parenthesized hc h)
  | optional _ ih | star _ ih | plus _ ih =>
    exact ⟨isSuffixed_of_standApart (by decide) h, ih (hbody h)⟩

/-! ## Reading back what is displayed -/

/-- The name, a colon and the words of the clauses spell the rule. -/
theorem spells_rule_words (hK : TokenKind.IsNameable K) {head : String}
    {cs : List (Clause K)} (hall : ∀ c ∈ cs, c.IsWritten)
    (hflat : ∀ c ∈ cs, c.Unstacked)
    (h : ts.map Token.word =
      (.ident, head) :: (.colon, ":") :: [].intercalate (cs.map words)) :
    Spells .rule ts (.declaration ⟨head, .branches [cs]⟩) := by
  obtain ⟨name, us, rfl, hname, rfl, hus⟩ := exists_token_of_map h
  obtain ⟨colon, vs, rfl, hcolon, _, hvs⟩ := exists_token_of_map hus
  refine .rule hname hcolon ?_
  cases cs with
  | nil =>
    obtain rfl := List.map_eq_nil_iff.mp hvs
    exact .emptyBody
  | cons c cs =>
    exact .branchesBody (.branch (spells_sequence_words (List.cons_ne_nil c cs)
      (fun d hd => areSpelled hK (hall d hd) (hflat d hd)) hvs))

variable {α : Type} {head : String} {rule : Rule K α}

/-- **What is displayed for a rule is read back as the rule**, or not at all. It is
read if no suffix in it stands on a suffix and the places in it fit their
counters. -/
theorem parse_display_rule (hK : TokenKind.IsNameable K) (hhead : IsName head)
    (hall : ∀ c ∈ rule.clauses, c.IsWritten) (d : Declaration K) :
    parse (rule.display head) = .ok (.ok d) ↔
      d = ⟨head, .branches [rule.clauses]⟩ ∧
        (∀ c ∈ rule.clauses, c.Unstacked) ∧
          ∃ stop, Position.start.advance (rule.display head) = .ok stop := by
  have hcuts := cuts_display_rule hK hhead hall
  have hparse (hflat : ∀ c ∈ rule.clauses, c.Unstacked)
      (hfits : ∃ stop, Position.start.advance (rule.display head) = .ok stop) :
      parse (rule.display head) =
        .ok (.ok ⟨head, .branches [rule.clauses]⟩) := by
    obtain ⟨stop, hstop⟩ := hfits
    obtain ⟨tokens, hread, hwords⟩ := Lexicon.exists_read hcuts hstop
    exact parse_of_spells hread (spells_rule_words hK hall hflat hwords)
  constructor
  · intro h
    obtain ⟨tokens, hread, hspells⟩ := exists_spells_of_parse h
    obtain ⟨hwords, hfits⟩ := Lexicon.read_eq_ok hread
    have hapart := hspells.standApart
    rw [hwords.unique hcuts] at hapart
    have hclauses := (List.isChain_cons.mp (List.isChain_cons.mp hapart).2).2
    have hflat (c : Clause K) (hc : c ∈ rule.clauses) : c.Unstacked :=
      unstacked_of_standApart (hall c hc) (standApart_of_mem hc hclauses)
    have heq := h.symm.trans (hparse hflat hfits)
    exact ⟨Except.ok.inj (Except.ok.inj heq), hflat, hfits⟩
  · rintro ⟨rfl, hflat, hfits⟩
    exact hparse hflat hfits

end RuleText

end Descent
