import Descent.Proofs.Matching.Derivation
import Descent.Proofs.Parser.Display
import Descent.Proofs.Tree.Dump

/-!
# Dumps of parsed trees

The rules of a parser come from rule texts, so what it is written on the nodes of its
trees are names, and clauses in rule notation. Such labels can be read back from
their lines (`Grammar.Derives.isLegible`), and so a dump tells everything of a parsed
tree but its callbacks and the places of its tokens, whatever the texts of the tokens
are (`Builder.dump_eq_iff`).
-/

namespace Descent

variable {K α β : Type} [TokenKind K]

/-! ## Clauses in rule notation -/

/-- What is in no text of a list and not in the separator is not in the list with
separators. -/
theorem not_mem_intercalate {c : Char} {sep : List Char} (hsep : c ∉ sep)
    {texts : List (List Char)} (h : ∀ text ∈ texts, c ∉ text) :
    c ∉ sep.intercalate texts := by
  induction texts with
  | nil => exact List.not_mem_nil
  | cons text texts ih =>
    obtain ⟨htext, htexts⟩ := List.forall_mem_cons.mp h
    cases texts with
    | nil => rwa [List.intercalate_singleton]
    | cons next texts =>
      rw [List.intercalate_cons_cons, List.mem_append, List.mem_append]
      exact not_or.mpr ⟨not_or.mpr ⟨htext, hsep⟩, ih htexts⟩

section Legible

variable (hname : ∀ k : K, RuleText.IsName (TokenKind.name k))

include hname

/-- A written clause is displayed on one line. -/
theorem Clause.IsWritten.newline_not_mem_display {c : Clause K} (h : c.IsWritten) :
    '\n' ∉ c.display.toList := by
  have hmark (d : Bool) : '\n' ∉ (Clause.markText d).toList := by cases d <;> decide
  have hlist {sep : String} (hsep : '\n' ∉ sep.toList) {cs : List (Clause K)}
      (hcs : ∀ c ∈ cs, '\n' ∉ c.display.toList) :
      '\n' ∉ ("(" ++ sep.intercalate (Clause.displayAll cs) ++ ")").toList := by
    have hmembers := not_mem_intercalate hsep (List.forall_mem_map.mpr hcs)
    simp only [String.toList_append, String.toList_intercalate,
      Clause.displayAll_eq_map, List.map_map, List.mem_append, not_or]
    exact ⟨⟨by decide, hmembers⟩, by decide⟩
  induction h with
  | @token k d =>
    rw [Clause.display, String.toList_append, List.mem_append]
    exact not_or.mpr ⟨(hname k).not_mem rfl, hmark d⟩
  | @reference x d hx =>
    rw [Clause.display, String.toList_append, List.mem_append]
    exact not_or.mpr ⟨hx.not_mem rfl, hmark d⟩
  | group _ _ ih | choice _ _ ih => exact hlist (by decide) ih
  | optional _ ih | star _ ih | plus _ ih =>
    rw [Clause.display, String.toList_append, List.mem_append]
    exact not_or.mpr ⟨ih, by decide⟩

/-! ## The labels of a derivation -/

/-- The clauses of a phrase are written. -/
def Phrase.IsWritten : Phrase K → Prop
  | .name _ => True
  | .clause c => c.IsWritten
  | .sequence cs => ∀ c ∈ cs, c.IsWritten

omit hname in
/-- What a non-terminal is derived for is a name. -/
theorem Grammar.Derives.isName {g : Grammar K α}
    (hg : g.AllRules fun head clauses =>
      RuleText.IsName head ∧ ∀ c ∈ clauses, c.IsWritten)
    {x : String} {ts : List (Tree K α)} (h : g.Derives (.name x) ts) :
    RuleText.IsName x := by
  generalize hp : Phrase.name x = p at h
  -- an operator's application has an operand of the same non-terminal
  induction h with
  | rule hx hrule =>
    cases hp
    obtain rfl := name_of_get? hx
    exact (hg _ (List.mem_of_find?_eq_some hx) _ hrule).1
  | prefixed _ _ _ _ _ ih | infixed _ _ _ _ _ _ ih | postfixed _ _ _ _ _ ih =>
    exact ih hp
  | token | reference | group | choice | optional | optionalNone | star | plus | nil
  | cons => cases hp

/-- **The labels of derived trees can be read back** if the rules of the grammar are
written. -/
theorem Grammar.Derives.isLegible {g : Grammar K α}
    (hg : g.AllRules fun head clauses =>
      RuleText.IsName head ∧ ∀ c ∈ clauses, c.IsWritten)
    {p : Phrase K} {ts : List (Tree K α)} (h : g.Derives p ts) (hp : p.IsWritten) :
    ∀ t ∈ ts, t.AllNodes fun l _ => l.IsLegible := by
  have hleaf {t : Token K} {d : Bool} :
      (Tree.leaf t d : Tree K α).AllNodes fun l _ => l.IsLegible := .leaf
  induction h with
  | rule hx hrule _ ih =>
    obtain ⟨hhead, hclauses⟩ := hg _ (List.mem_of_find?_eq_some hx) _ hrule
    exact List.forall_mem_singleton.mpr (.node (.rule hhead) (ih hclauses))
  | prefixed hx _ _ _ h ih =>
    obtain rfl := name_of_get? hx
    exact List.forall_mem_singleton.mpr (.node (.expression (h.isName hg))
      (List.forall_mem_cons.mpr ⟨hleaf, ih trivial⟩))
  | infixed hx _ _ _ h _ ih ih' =>
    obtain rfl := name_of_get? hx
    refine List.forall_mem_singleton.mpr (.node (.expression (h.isName hg)) ?_)
    exact List.forall_mem_cons.mpr ⟨ih trivial _ List.mem_cons_self,
      List.forall_mem_cons.mpr ⟨hleaf, ih' trivial⟩⟩
  | postfixed hx _ _ _ h ih =>
    obtain rfl := name_of_get? hx
    refine List.forall_mem_singleton.mpr (.node (.expression (h.isName hg)) ?_)
    exact List.forall_mem_cons.mpr ⟨ih trivial _ List.mem_cons_self,
      List.forall_mem_singleton.mpr hleaf⟩
  | token => exact List.forall_mem_singleton.mpr hleaf
  | reference _ ih =>
    exact List.forall_mem_singleton.mpr ((ih trivial _ List.mem_cons_self).setDiscarded
      fun _ _ hl => hl.setDiscarded _)
  | group _ ih =>
    cases hp with
    | group _ hcs => exact ih hcs
  | choice hb _ ih =>
    cases hp with
    | choice _ hbs => exact ih (hbs _ hb)
  | optional _ ih =>
    cases hp with
    | optional hb =>
      exact List.forall_mem_singleton.mpr
        (.node (.optional (hb.newline_not_mem_display hname)) (ih hb))
  | optionalNone =>
    cases hp with
    | optional hb =>
      exact List.forall_mem_singleton.mpr
        (.node (.optional (hb.newline_not_mem_display hname))
          fun _ h => absurd h List.not_mem_nil)
  | star _ ih =>
    cases hp with
    | star hb =>
      refine List.forall_mem_singleton.mpr
        (.node (.star (hb.newline_not_mem_display hname)) fun t ht => ?_)
      obtain ⟨ts, hts, ht⟩ := List.mem_flatten.mp ht
      exact ih ts hts hb t ht
  | plus _ _ ih =>
    cases hp with
    | plus hb =>
      refine List.forall_mem_singleton.mpr
        (.node (.plus (hb.newline_not_mem_display hname)) fun t ht => ?_)
      obtain ⟨ts, hts, ht⟩ := List.mem_flatten.mp ht
      exact ih ts hts hb t ht
  | nil => exact fun _ h => absurd h List.not_mem_nil
  | cons _ _ ih ih' =>
    obtain ⟨hc, hcs⟩ := List.forall_mem_cons.mp hp
    exact fun t ht => (List.mem_append.mp ht).elim (ih hc t) (ih' hcs t)

/-- The labels of a parsed tree can be read back if the grammar was extracted. -/
theorem Builder.isLegible_of_parse [DecidableEq K] {b : Builder K α} {root : String}
    {g : Grammar K α} {errors : List BuildError}
    (hb : b.extract root = .ok (g, errors)) {style : Style} {tokens : TokenList K}
    {start : String} {tree : Tree K α}
    (h : (Matcher.mk g style tokens).parse start = .ok (.ok tree)) :
    tree.AllNodes fun l _ => l.IsLegible :=
  (Matcher.derives_of_parse h).isLegible hname (isWritten_of_extract hb) trivial tree
    List.mem_cons_self

end Legible

/-- **A dump tells parsed trees apart.** Let the names of token kinds be identifiers,
each of one kind. Trees that are parsed over configurations that were built from rule
texts, of whatever outputs, have the same dump exactly if they are equal but for their
callbacks and the places of their tokens. -/
theorem Builder.dump_eq_iff [DecidableEq K]
    (hname : ∀ k : K, RuleText.IsName (TokenKind.name k))
    (hinj : Function.Injective (TokenKind.name (K := K)))
    {b : Builder K α} {root : String} {g : Grammar K α} {errors : List BuildError}
    (hb : b.extract root = .ok (g, errors))
    {b' : Builder K β} {root' : String} {g' : Grammar K β} {errors' : List BuildError}
    (hb' : b'.extract root' = .ok (g', errors'))
    {style style' : Style} {tokens tokens' : TokenList K} {start start' : String}
    {tree : Tree K α} {tree' : Tree K β}
    (h : (Matcher.mk g style tokens).parse start = .ok (.ok tree))
    (h' : (Matcher.mk g' style' tokens').parse start' = .ok (.ok tree')) :
    tree.dump = tree'.dump ↔ tree.shown = tree'.shown := by
  constructor
  · exact Tree.shown_eq_of_dump_eq hname hinj (isLegible_of_parse hname hb h)
      (isLegible_of_parse hname hb' h')
  · intro hshown
    rw [← tree.dump_shown, hshown, tree'.dump_shown]

namespace Script

/-- The names of the kinds of Script tell the kinds. -/
theorem name_injective : Function.Injective (TokenKind.name (K := ScriptKind)) := by
  intro k k' h
  have hsome := ScriptKind.ofName?_name k
  rw [h, ScriptKind.ofName?_name] at hsome
  exact (Option.some.inj hsome).symm

/-- A text that a discarded sum may follow, whatever is made of it. -/
def titled (callback : Callback ScriptKind α) : Builder ScriptKind α :=
  ((Builder.empty.production "a" "a : TEXT (b[d])?" callback).production "b" "b : NUM"
    callback).production "plus" "b : %infix PLUS 10" callback

/-- A text with quotes, a backslash and a line end, and then `1 + 2`, from a line on. -/
def titledTokens (line : UInt32) : TokenList ScriptKind :=
  .withStop
    (([(.text, "\"\\\n\""), (.num, "1"), (.plus, "+"), (.num, "2")] :
      List (ScriptKind × String)).map fun token =>
        .placed token.1 token.2 ⟨line, 1, 0⟩ .nowhere) .start

/-- The dump of their tree. -/
def titledDump : String :=
  String.join
    ["+ a\n", "  - TEXT \"\\\"\\\\\\n\\\"\"\n", "  + b [d]?\n",
      "    + b <infix 10 left> [d]\n", "      + b\n", "        - NUM \"1\"\n",
      "      - PLUS \"+\"\n", "      + b\n", "        - NUM \"2\"\n"]

/-- The dump of what is parsed from `a`. -/
def dumpOf (b : Builder ScriptKind α) (tokens : TokenList ScriptKind) : Option String :=
  match b.extract "a" with
  | .ok (g, _) =>
    match (Matcher.mk g .ebnf tokens).parse "a" with
    | .ok (.ok tree) => some tree.dump
    | .ok (.error _) => none
    | .error _ => none
  | .error _ => none

theorem exists_of_dumpOf {b : Builder ScriptKind α} {tokens : TokenList ScriptKind}
    {text : String} (h : dumpOf b tokens = some text) :
    ∃ g errors tree, b.extract "a" = .ok (g, errors) ∧
      (Matcher.mk g .ebnf tokens).parse "a" = .ok (.ok tree) ∧ tree.dump = text := by
  unfold dumpOf at h
  split at h
  · next g errors hg =>
    split at h
    · next tree htree => exact ⟨g, errors, tree, hg, htree, Option.some.inj h⟩
    · cases h
    · cases h
  · cases h

/-- Trees with different callbacks over tokens at different places. -/
theorem titled_dump_eq :
    (∀ k : ScriptKind, RuleText.IsName (TokenKind.name k)) ∧
    Function.Injective (TokenKind.name (K := ScriptKind)) ∧
    ∃ g errors tree g' errors' tree',
      (titled fun _ => ()).extract "a" = .ok (g, errors) ∧
      (titled List.length).extract "a" = .ok (g', errors') ∧
      (Matcher.mk g .ebnf (titledTokens 1)).parse "a" = .ok (.ok tree) ∧
      (Matcher.mk g' .ebnf (titledTokens 7)).parse "a" = .ok (.ok tree') ∧
      tree.dump = titledDump ∧ tree'.dump = titledDump ∧
      tree.shown = tree'.shown := by
  have hdump : dumpOf (titled fun _ => ()) (titledTokens 1) = some titledDump := by
    decide +kernel
  have hsame : dumpOf (titled fun _ => ()) (titledTokens 1) =
      dumpOf (titled List.length) (titledTokens 7) := by
    decide +kernel
  obtain ⟨g, errors, tree, hg, htree, htext⟩ := exists_of_dumpOf hdump
  obtain ⟨g', errors', tree', hg', htree', htext'⟩ :=
    exists_of_dumpOf (hsame.symm.trans hdump)
  exact ⟨isNameable.isName_name, name_injective, g, errors, tree, g', errors', tree',
    hg, hg', htree, htree', htext, htext',
    (Builder.dump_eq_iff isNameable.isName_name name_injective hg hg' htree htree').mp
      (htext.trans htext'.symm)⟩

end Script

end Descent
