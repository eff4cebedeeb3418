import Descent.Proofs.RuleText.Written

/-!
# The words that a rule is displayed with

A rule is displayed in rule notation: names and signs with single blanks between
them, and parentheses around groups and choices. Every clause that a rule text can
have is cut into its words (`RuleText.isCut`), and so are its rules
(`RuleText.cuts_display_rule`), as long as the kinds of token have names.
-/

namespace Descent

variable {K : Type}

/-- **Kinds of token that rule texts can speak of**: a kind is found again by its
name, which is a name of rule texts. -/
structure TokenKind.IsNameable (K : Type) [TokenKind K] : Prop where
  /-- A kind is found again by its name. -/
  ofName?_name : ∀ k : K, TokenKind.ofName? (TokenKind.name k) = some k
  /-- The name of a kind is an identifier. -/
  isName_name : ∀ k : K, RuleText.IsName (TokenKind.name k)

namespace Clause

/-! ## The words of a clause -/

/-- The words of the mark of a discarded clause. -/
def markWords (discarded : Bool) : List (RuleKind × String) :=
  if discarded then [(.discard, "[d]")] else []

/-- The words of a list between parentheses. -/
def parenthesized (ws : List (RuleKind × String)) : List (RuleKind × String) :=
  (.lparen, "(") :: (ws ++ [(.rparen, ")")])

mutual

/-- **The words that a clause is displayed with.** -/
def words [TokenKind K] : Clause K → List (RuleKind × String)
  | token kind d => (.ident, TokenKind.name kind) :: markWords d
  | reference name d => (.ident, name) :: markWords d
  | group members => parenthesized ([].intercalate (wordsAll members))
  | choice branches =>
    parenthesized ([(.pipe, "|")].intercalate (wordsAll branches))
  | optional body => words body ++ [(.question, "?")]
  | star body => words body ++ [(.star, "*")]
  | plus body => words body ++ [(.plus, "+")]

/-- The words of each clause of a list. -/
def wordsAll [TokenKind K] : List (Clause K) → List (List (RuleKind × String))
  | [] => []
  | c :: cs => words c :: wordsAll cs

end

theorem wordsAll_eq_map [TokenKind K] (cs : List (Clause K)) :
    wordsAll cs = cs.map words := by
  induction cs with
  | nil => rfl
  | cons c cs ih => rw [wordsAll, ih, List.map_cons]

end Clause

namespace RuleText

open Clause (words)

variable [TokenKind K]

/-! ## Cutting what is displayed -/

/-- **A clause is cut into its words**, whatever the text goes on with that is no
part of a name. -/
def IsCut (c : Clause K) : Prop :=
  ∀ {rest : List Char} {ws : List (RuleKind × String)}, Ends rest →
    lexicon.Cuts rest ws →
    lexicon.Cuts (c.display.toList ++ rest) (words c ++ ws)

/-- A text begins with something else than a blank. -/
def Begins (cs : List Char) : Prop := ∃ d ds, cs = d :: ds ∧ isGap d = false

theorem begins_name {s : String} (h : IsName s) (rest : List Char) :
    Begins (s.toList ++ rest) := by
  obtain ⟨c, cs, hchars, hc, _⟩ := h
  exact ⟨c, cs ++ rest, by rw [hchars, List.cons_append],
    isGap_of_isNameStart hc⟩

/-- What is displayed begins with a name or a parenthesis. -/
theorem begins_display (hK : TokenKind.IsNameable K) {c : Clause K}
    (h : c.IsWritten) (rest : List Char) :
    Begins (c.display.toList ++ rest) := by
  induction h generalizing rest with
  | token =>
    rw [Clause.display, String.toList_append, List.append_assoc]
    exact begins_name (hK.isName_name _) _
  | reference hx =>
    rw [Clause.display, String.toList_append, List.append_assoc]
    exact begins_name hx _
  | group | choice =>
    rw [Clause.display, String.toList_append, String.toList_append,
      List.append_assoc, List.append_assoc]
    exact ⟨'(', _, rfl, rfl⟩
  | optional _ ih | star _ ih | plus _ ih =>
    rw [Clause.display, String.toList_append, List.append_assoc]
    exact ih _

/-- A name with its mark is cut. -/
theorem cuts_marked {s : String} (hs : IsName s) (d : Bool) {rest : List Char}
    {ws : List (RuleKind × String)} (hrest : Ends rest)
    (h : lexicon.Cuts rest ws) :
    lexicon.Cuts (s.toList ++ (Clause.markText d).toList ++ rest)
      ((.ident, s) :: Clause.markWords d ++ ws) := by
  rw [List.append_assoc]
  cases d with
  | false => exact cuts_name hs hrest h
  | true =>
    have hmark : lexicon.Cuts (' ' :: '[' :: 'd' :: ']' :: rest)
        ((.discard, "[d]") :: ws) :=
      cuts_blank rfl (cuts_mark h)
    exact cuts_name hs (ends_cons rfl) hmark

/-- **What stands between two displayed clauses** is cut off before anything but a
blank, and ends the name before it. -/
structure Separates (sep : List Char) (ws : List (RuleKind × String)) : Prop where
  /-- It ends the name before it. -/
  ends : ∀ rest, Ends (sep ++ rest)
  /-- It is cut off. -/
  cuts : ∀ {rest vs}, Begins rest → lexicon.Cuts rest vs →
    lexicon.Cuts (sep ++ rest) (ws ++ vs)

theorem separates_blank : Separates " ".toList [] where
  ends _ := ends_cons rfl
  cuts := by
    rintro _ _ ⟨d, ds, rfl, hd⟩ h
    exact cuts_blank hd h

theorem separates_bar : Separates " | ".toList [(.pipe, "|")] where
  ends _ := ends_cons rfl
  cuts := by
    rintro _ _ ⟨d, ds, rfl, hd⟩ h
    exact cuts_blank rfl (cuts_sign rfl (cuts_blank hd h))

omit [TokenKind K] in
/-- A list with separators begins as its first member. -/
theorem exists_intercalate_cons {α : Type} (sep a : List α)
    (as : List (List α)) : ∃ tl, sep.intercalate (a :: as) = a ++ tl := by
  cases as with
  | nil => exact ⟨[], by rw [List.intercalate_singleton, List.append_nil]⟩
  | cons b bs => exact ⟨_, by rw [List.intercalate_cons_cons, List.append_assoc]⟩

/-- A list with separators begins as its first clause does. -/
theorem begins_intercalate (hK : TokenKind.IsNameable K) (sep : List Char)
    {c : Clause K} (hc : c.IsWritten) (cs : List (Clause K))
    (rest : List Char) :
    Begins (sep.intercalate ((c :: cs).map (·.display.toList)) ++ rest) := by
  obtain ⟨tl, htl⟩ := exists_intercalate_cons sep c.display.toList
    (cs.map (·.display.toList))
  rw [List.map_cons, htl, List.append_assoc]
  exact begins_display hK hc _

/-- Clauses with separators between them are cut into their words and those of
the separators. -/
theorem cuts_intercalate (hK : TokenKind.IsNameable K) {sep : List Char}
    {sepWords : List (RuleKind × String)} (hsep : Separates sep sepWords)
    {cs : List (Clause K)} (hne : cs ≠ []) (hwritten : ∀ c ∈ cs, c.IsWritten)
    (hcut : ∀ c ∈ cs, IsCut c) {rest : List Char}
    {ws : List (RuleKind × String)} (hrest : Ends rest)
    (h : lexicon.Cuts rest ws) :
    lexicon.Cuts (sep.intercalate (cs.map (·.display.toList)) ++ rest)
      (sepWords.intercalate (cs.map words) ++ ws) := by
  induction cs with
  | nil => exact absurd rfl hne
  | cons c cs ih =>
    obtain ⟨hc, hcs⟩ := List.forall_mem_cons.mp hcut
    obtain ⟨_, hwritten⟩ := List.forall_mem_cons.mp hwritten
    cases cs with
    | nil =>
      simp only [List.map_cons, List.map_nil, List.intercalate_singleton]
      exact hc hrest h
    | cons d ds =>
      have htail := ih (List.cons_ne_nil _ _) hwritten hcs
      have hbegins := begins_intercalate hK sep
        (hwritten d List.mem_cons_self) ds rest
      simp only [List.map_cons, List.intercalate_cons_cons, List.append_assoc]
      exact hc (hsep.ends _) (hsep.cuts hbegins htail)

/-- Clauses between parentheses are cut into their words. -/
theorem cuts_parenthesized (hK : TokenKind.IsNameable K) {sep : String}
    {sepWords : List (RuleKind × String)} (hsep : Separates sep.toList sepWords)
    {cs : List (Clause K)} (hlen : 2 ≤ cs.length)
    (hwritten : ∀ c ∈ cs, c.IsWritten) (hcut : ∀ c ∈ cs, IsCut c)
    {rest : List Char} {ws : List (RuleKind × String)}
    (h : lexicon.Cuts rest ws) :
    lexicon.Cuts
      (("(" ++ sep.intercalate (Clause.displayAll cs) ++ ")").toList ++ rest)
      (Clause.parenthesized (sepWords.intercalate (Clause.wordsAll cs)) ++
        ws) := by
  have hne : cs ≠ [] := by
    rintro rfl
    cases hlen
  have hclose : lexicon.Cuts (')' :: rest) ((.rparen, ")") :: ws) :=
    cuts_sign rfl h
  have hmembers := cuts_intercalate hK hsep hne hwritten hcut (ends_cons rfl)
    hclose
  rw [String.toList_append, String.toList_append, String.toList_intercalate,
    Clause.displayAll_eq_map, List.map_map, Clause.wordsAll_eq_map,
    Clause.parenthesized, List.cons_append, List.append_assoc,
    List.append_assoc, List.append_assoc]
  exact cuts_sign rfl hmembers

/-- A clause with a suffix is cut as the clause is, and the suffix after it. -/
theorem cuts_suffixed {c : Clause K} (hc : IsCut c) {sign : Char}
    {kind : RuleKind} (hpart : isNamePart sign = false)
    (hsign : ∀ rest, lexicon.longest (sign :: rest) = (.token kind, 1))
    {rest : List Char} {ws : List (RuleKind × String)}
    (h : lexicon.Cuts rest ws) :
    lexicon.Cuts ((c.display ++ String.ofList [sign]).toList ++ rest)
      (words c ++ [(kind, String.ofList [sign])] ++ ws) := by
  rw [String.toList_append, String.toList_ofList, List.append_assoc,
    List.append_assoc]
  exact hc (ends_cons hpart) (cuts_sign (hsign rest) h)

/-- **What is displayed is cut into the words of the clause.** -/
theorem isCut (hK : TokenKind.IsNameable K) {c : Clause K} (h : c.IsWritten) :
    IsCut c := by
  induction h with
  | token =>
    intro rest ws hrest h
    rw [Clause.display, String.toList_append]
    exact cuts_marked (hK.isName_name _) _ hrest h
  | reference hx =>
    intro rest ws hrest h
    rw [Clause.display, String.toList_append]
    exact cuts_marked hx _ hrest h
  | group hlen hall ih =>
    intro rest ws _ h
    exact cuts_parenthesized hK separates_blank hlen hall ih h
  | choice hlen hall ih =>
    intro rest ws _ h
    exact cuts_parenthesized hK separates_bar hlen hall ih h
  | optional _ ih | star _ ih | plus _ ih =>
    intro rest ws _ h
    exact cuts_suffixed ih rfl (fun _ => rfl) h

/-- **A displayed rule is cut** into its name, a colon and the words of its
clauses. -/
theorem cuts_display_rule (hK : TokenKind.IsNameable K) {α : Type}
    {head : String} (hhead : IsName head) {rule : Rule K α}
    (hall : ∀ c ∈ rule.clauses, c.IsWritten) :
    lexicon.Cuts (rule.display head).toList
      ((.ident, head) :: (.colon, ":") ::
        [].intercalate (rule.clauses.map words)) := by
  have hcolon {rest : List Char} {ws : List (RuleKind × String)}
      (h : lexicon.Cuts rest ws) :
      lexicon.Cuts (head.toList ++ " :".toList ++ rest)
        ((.ident, head) :: (.colon, ":") :: ws) := by
    rw [List.append_assoc]
    exact cuts_name hhead (ends_cons rfl) (cuts_blank rfl (cuts_sign rfl h))
  unfold Rule.display
  rw [String.toList_append, String.toList_append]
  cases hclauses : rule.clauses with
  | nil => exact hcolon lexicon.cuts_nil
  | cons c cs =>
    rw [hclauses] at hall
    have hcuts := cuts_intercalate hK separates_blank (List.cons_ne_nil c cs) hall
      (fun d hd => isCut hK (hall d hd)) ends_nil lexicon.cuts_nil
    have hbegins := begins_intercalate hK " ".toList (hall c List.mem_cons_self)
      cs []
    have htail := separates_blank.cuts hbegins hcuts
    rw [if_neg (by simp), String.toList_append, String.toList_intercalate,
      Clause.displayAll_eq_map, List.map_map]
    simpa [Function.comp_def] using hcolon htail

end RuleText

end Descent
