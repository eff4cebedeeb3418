import Descent.Proofs.RuleText.Words
import Descent.Proofs.Text.Quoted
import Descent.Proofs.Text.Separated
import Descent.Tree.Dump

/-!
# What a line of a dump tells

A line of a dump is for a node or for a token. It does not say of what kind a node
is. That can be seen from the last sign before the discard mark if names are as
parsing makes them (`Label.IsLegible`): a part of a name is that of a rule, an angle
bracket that of an operator's application, and suffixes are those of options and
repetitions. So each line can be read back, but for the callbacks and the places that
it does not show (`Tree.Line.shown_eq_of_text_eq`).
-/

namespace Descent

variable {K α β : Type}

/-! ## What is shown -/

/-- What is written on a node, its callback left out. -/
def Label.shown (l : Label K α) : Label K Unit :=
  ⟨l.name, l.kind, l.operation, none, l.discarded⟩

/-- The kind and the text of a token, at no place. -/
def Token.shown (t : Token K) : Token K := .unplaced t.kind t.text

/-! ## Labels -/

/-- **A label as parsing makes it**: rules and heads have names of rule texts, and
the name of an option or a repetition is a text with a suffix that stands on one
line. -/
inductive Label.IsLegible : Label K α → Prop
  /-- Of a rule. -/
  | rule {x : String} {f : Option (Callback K α)} {d : Bool} :
      RuleText.IsName x → IsLegible ⟨x, .rule, none, f, d⟩
  /-- Of an operator's application. -/
  | expression {x : String} {o : Operation} {f : Option (Callback K α)} {d : Bool} :
      RuleText.IsName x → IsLegible ⟨x, .expression, some o, f, d⟩
  /-- Of an option. -/
  | optional {body : String} {f : Option (Callback K α)} {d : Bool} :
      '\n' ∉ body.toList → IsLegible ⟨body ++ "?", .optional, none, f, d⟩
  /-- Of a repetition. -/
  | star {body : String} {f : Option (Callback K α)} {d : Bool} :
      '\n' ∉ body.toList → IsLegible ⟨body ++ "*", .many, none, f, d⟩
  /-- Of a repetition that needs its body once. -/
  | plus {body : String} {f : Option (Callback K α)} {d : Bool} :
      '\n' ∉ body.toList → IsLegible ⟨body ++ "+", .many, none, f, d⟩

/-- An operator's application is named for a head and has an operation. -/
theorem Label.IsLegible.of_expression {l : Label K α} (h : l.IsLegible)
    (hkind : l.kind = .expression) :
    RuleText.IsName l.name ∧ ∃ o, l.operation = some o := by
  cases h with
  | expression hx => exact ⟨hx, _, rfl⟩
  | rule | optional | star | plus => cases hkind

/-- No other node has an operation. -/
theorem Label.IsLegible.operation_eq_none {l : Label K α} (h : l.IsLegible)
    (hkind : l.kind ≠ .expression) : l.operation = none := by
  cases h with
  | expression => exact absurd rfl hkind
  | rule | optional | star | plus => rfl

theorem Label.IsLegible.setDiscarded {l : Label K α} (h : l.IsLegible) (d : Bool) :
    IsLegible { l with discarded := d } := by
  cases h with
  | rule hx => exact .rule hx
  | expression hx => exact .expression hx
  | optional hbody => exact .optional hbody
  | star hbody => exact .star hbody
  | plus hbody => exact .plus hbody

namespace RuleText

/-- Names hold nothing but parts of names. -/
theorem IsName.not_mem {x : String} (h : IsName x) {c : Char}
    (hc : isNamePart c = false) : c ∉ x.toList := by
  obtain ⟨a, cs, hchars, ha, hcs⟩ := h
  rw [hchars]
  rintro (_ | ⟨_, h⟩)
  · rw [isNamePart, ha] at hc
    cases hc
  · rw [hcs c h] at hc
    cases hc

/-- A name ends with a part of a name. -/
theorem IsName.exists_concat {x : String} (h : IsName x) :
    ∃ cs c, x.toList = cs ++ [c] ∧ isNamePart c = true := by
  have hne : x.toList ≠ [] := by
    obtain ⟨a, cs, hchars, -⟩ := h
    rw [hchars]
    exact List.cons_ne_nil _ _
  refine ⟨_, _, (List.dropLast_concat_getLast hne).symm, ?_⟩
  rw [← Bool.not_eq_false]
  exact fun hc => h.not_mem hc (List.getLast_mem hne)

end RuleText

/-! ## Operations -/

/-- A place is told by its word. -/
theorem Affix.display_inj {a b : Affix} (h : a.display = b.display) : a = b := by
  revert h
  cases a <;> cases b <;> decide

/-- A direction is told by its word. -/
theorem Associativity.display_inj {a b : Associativity} (h : a.display = b.display) :
    a = b := by
  revert h
  cases a <;> cases b <;> decide

namespace Operation

/-- What is written after the precedence of an operation. -/
def directionText : Operation → List Char
  | infixOp _ a => ' ' :: a.display.toList
  | prefixOp _ | postfixOp _ => []

/-- An operation is written as its place, its precedence and its direction. -/
theorem toList_display (o : Operation) :
    o.display.toList = o.affix.display.toList ++
      ' ' :: ((toString o.precedence.toNat).toList ++ o.directionText) := by
  have htext (s : String) : toString s = s := rfl
  cases o <;> simp [display, affix, Affix.display, precedence, directionText, htext]

/-- An operation is written on one line. -/
theorem newline_not_mem_display (o : Operation) : '\n' ∉ o.display.toList := by
  have hplace (a : Affix) : '\n' ∉ a.display.toList := by cases a <;> decide
  have hdirection : '\n' ∉ o.directionText := by
    cases o with
    | prefixOp | postfixOp => exact List.not_mem_nil
    | infixOp _ a => cases a <;> simp [directionText, Associativity.display]
  rw [toList_display, List.mem_append, List.mem_cons, List.mem_append]
  rintro (h | h | h | h)
  · exact hplace _ h
  · revert h
    decide
  · exact not_mem_toString rfl h
  · exact hdirection h

/-- **An operation is read back** up to the closing bracket. -/
theorem display_append_inj {o o' : Operation} {us vs : List Char}
    (h : o.display.toList ++ '>' :: us = o'.display.toList ++ '>' :: vs) :
    o = o' ∧ us = vs := by
  have hblank (a : Affix) : ' ' ∉ a.display.toList := by cases a <;> decide
  have hbracket (a : Associativity) : '>' ∉ a.display.toList := by
    cases a <;> decide
  simp only [toList_display, List.append_assoc, List.cons_append] at h
  obtain ⟨hplace, hrest⟩ := append_cons_inj (hblank _) (hblank _) h
  have haffix : o.affix = o'.affix := Affix.display_inj (String.toList_inj.mp hplace)
  cases o with
  | prefixOp p =>
    cases o' with
    | infixOp | postfixOp => cases haffix
    | prefixOp p' =>
      obtain ⟨hp, hus⟩ := toString_append_inj rfl hrest
      exact ⟨congrArg prefixOp (UInt32.toNat_inj.mp hp), hus⟩
  | postfixOp p =>
    cases o' with
    | infixOp | prefixOp => cases haffix
    | postfixOp p' =>
      obtain ⟨hp, hus⟩ := toString_append_inj rfl hrest
      exact ⟨congrArg postfixOp (UInt32.toNat_inj.mp hp), hus⟩
  | infixOp p a =>
    cases o' with
    | prefixOp | postfixOp => cases haffix
    | infixOp p' a' =>
      obtain ⟨hp, hrest⟩ := toString_append_inj rfl hrest
      obtain ⟨ha, hus⟩ := append_cons_inj (hbracket a) (hbracket a') hrest
      obtain rfl : p = p' := UInt32.toNat_inj.mp hp
      obtain rfl : a = a' := Associativity.display_inj (String.toList_inj.mp ha)
      exact ⟨rfl, hus⟩

end Operation

/-! ## Lines -/

namespace Tree

/-- **What one line of a dump is for.** -/
inductive Line (K α : Type) where
  /-- A node. -/
  | node (label : Label K α)
  /-- A token. -/
  | leaf (token : Token K) (discarded : Bool)

namespace Line

/-- What is shown of a line. -/
def shown : Line K α → Line K Unit
  | node l => node l.shown
  | leaf t d => leaf t.shown d

/-- A line that can be read back. -/
def IsLegible : Line K α → Prop
  | node l => l.IsLegible
  | leaf .. => True

/-- The text of a line after its blanks. -/
def text [TokenKind K] : Line K α → String
  | node l => nodeLine l
  | leaf t d => leafLine t d

end Line

/-! ### The line of a node -/

/-- What the line of a node shows before the discard mark. -/
def titleText (l : Label K α) : List Char :=
  l.name.toList ++ (operationText l.operation).toList

theorem toList_nodeLine (l : Label K α) :
    (nodeLine l).toList =
      '+' :: ' ' :: (titleText l ++ (markText l.discarded).toList) := by
  have htext (s : String) : toString s = s := rfl
  simp [nodeLine, titleText, htext]

theorem toList_operationText (o : Operation) :
    (operationText (some o)).toList = ' ' :: '<' :: (o.display.toList ++ ['>']) := by
  have htext (s : String) : toString s = s := rfl
  simp [operationText, htext]

/-- The kind of a node by the last sign before the discard mark. -/
def kindOfSign (c : Char) : NodeKind :=
  if RuleText.isNamePart c then .rule
  else if c = '>' then .expression
  else if c = '?' then .optional
  else .many

/-- **The last sign before the discard mark tells the kind.** -/
theorem exists_titleText_eq {l : Label K α} (h : l.IsLegible) :
    ∃ cs c, titleText l = cs ++ [c] ∧ kindOfSign c = l.kind ∧ c ≠ ']' := by
  cases h with
  | rule hx =>
    obtain ⟨cs, c, hchars, hc⟩ := hx.exists_concat
    refine ⟨cs, c, by simp [titleText, operationText, hchars], if_pos hc, ?_⟩
    rintro rfl
    cases hc
  | @expression x o f d hx =>
    refine ⟨x.toList ++ ' ' :: '<' :: o.display.toList, '>', ?_, rfl, by decide⟩
    simp [titleText, toList_operationText]
  | @optional body =>
    exact ⟨body.toList, '?', by simp [titleText, operationText], rfl, by decide⟩
  | @star body =>
    exact ⟨body.toList, '*', by simp [titleText, operationText], rfl, by decide⟩
  | @plus body =>
    exact ⟨body.toList, '+', by simp [titleText, operationText], rfl, by decide⟩

/-- The discard mark is read back after a text that does not end as it does. -/
theorem markText_append_inj {cs cs' : List Char} {c c' : Char} {d d' : Bool}
    (hc : c ≠ ']') (hc' : c' ≠ ']')
    (h : cs ++ [c] ++ (markText d).toList = cs' ++ [c'] ++ (markText d').toList) :
    cs ++ [c] = cs' ++ [c'] ∧ d = d' := by
  have hlast := congrArg List.getLast? h
  cases d with
  | false =>
    cases d' with
    | false => exact ⟨by simpa [markText] using h, rfl⟩
    | true => exact absurd (by simpa [markText] using hlast) hc
  | true =>
    cases d' with
    | false => exact absurd (by simpa [markText] using hlast.symm) hc'
    | true => exact ⟨List.append_cancel_right h, rfl⟩

theorem eq_of_markText_eq {d d' : Bool} (h : (markText d).toList = (markText d').toList) :
    d = d' :=
  (@markText_append_inj [] [] ' ' ' ' d d' (by decide) (by decide)
    (congrArg ([' '] ++ ·) h)).2

/-- **The label of a node is read back from its line**, but for the callback. -/
theorem shown_eq_of_nodeLine_eq {l : Label K α} {l' : Label K β} (hl : l.IsLegible)
    (hl' : l'.IsLegible) (h : nodeLine l = nodeLine l') : l.shown = l'.shown := by
  rw [← String.toList_inj, toList_nodeLine, toList_nodeLine] at h
  have hrest := (List.cons.inj (List.cons.inj h).2).2
  obtain ⟨cs, c, htitle, hkind, hc⟩ := exists_titleText_eq hl
  obtain ⟨cs', c', htitle', hkind', hc'⟩ := exists_titleText_eq hl'
  rw [htitle, htitle'] at hrest
  obtain ⟨hsame, hdiscarded⟩ := markText_append_inj hc hc' hrest
  have hsign : c = c' := List.singleton_inj.mp (List.append_inj' hsame rfl).2
  have hkinds : l.kind = l'.kind := by rw [← hkind, ← hkind', hsign]
  have htitles : titleText l = titleText l' := by rw [htitle, hsame, htitle']
  by_cases hexpr : l.kind = .expression
  · obtain ⟨hx, o, ho⟩ := hl.of_expression hexpr
    obtain ⟨hx', o', ho'⟩ := hl'.of_expression (hkinds ▸ hexpr)
    rw [titleText, titleText, ho, ho', toList_operationText, toList_operationText]
      at htitles
    obtain ⟨hname, hop⟩ := append_cons_inj (hx.not_mem rfl) (hx'.not_mem rfl) htitles
    obtain ⟨rfl, -⟩ := Operation.display_append_inj (List.cons.inj hop).2
    rw [Label.shown, Label.shown, String.toList_inj.mp hname, hkinds, ho, ho',
      hdiscarded]
  · have ho := hl.operation_eq_none hexpr
    have ho' := hl'.operation_eq_none (hkinds ▸ hexpr)
    rw [titleText, titleText, ho, ho'] at htitles
    have hname := List.append_cancel_right htitles
    rw [Label.shown, Label.shown, String.toList_inj.mp hname, hkinds, ho, ho',
      hdiscarded]

/-- The line of a node is one line. -/
theorem newline_not_mem_nodeLine {l : Label K α} (hl : l.IsLegible) :
    '\n' ∉ (nodeLine l).toList := by
  have hname : '\n' ∉ l.name.toList := by
    cases hl with
    | rule hx | expression hx => exact hx.not_mem rfl
    | optional hbody | star hbody | plus hbody =>
      rw [String.toList_append, List.mem_append]
      rintro (h | h)
      · exact hbody h
      · revert h
        decide
  have hoperation : '\n' ∉ (operationText l.operation).toList := by
    cases l.operation with
    | none => exact List.not_mem_nil
    | some o =>
      simp [toList_operationText, o.newline_not_mem_display]
  have hmark : '\n' ∉ (markText l.discarded).toList := by
    cases l.discarded <;> decide
  simp [toList_nodeLine, titleText, hname, hoperation, hmark]

/-! ### The line of a token -/

section Tokens

variable [TokenKind K]

theorem toList_leafLine (t : Token K) (d : Bool) :
    (leafLine t d).toList = '-' :: ' ' :: ((TokenKind.name t.kind).toList ++
      ' ' :: ((quoted t.text).toList ++ (markText d).toList)) := by
  have htext (s : String) : toString s = s := rfl
  simp [leafLine, htext]

/-- **A token is read back from its line**, but for its place. -/
theorem shown_eq_of_leafLine_eq
    (hname : ∀ k : K, RuleText.IsName (TokenKind.name k))
    (hinj : Function.Injective (TokenKind.name (K := K))) {t t' : Token K}
    {d d' : Bool} (h : leafLine t d = leafLine t' d') : t.shown = t'.shown ∧ d = d' := by
  rw [← String.toList_inj, toList_leafLine, toList_leafLine] at h
  have hrest := (List.cons.inj (List.cons.inj h).2).2
  obtain ⟨hkind, hrest⟩ :=
    append_cons_inj ((hname _).not_mem rfl) ((hname _).not_mem rfl) hrest
  obtain ⟨htext, hmark⟩ := quoted_append_inj hrest
  rw [Token.shown, Token.shown, hinj (String.toList_inj.mp hkind), htext]
  exact ⟨rfl, eq_of_markText_eq hmark⟩

/-- The line of a token is one line. -/
theorem newline_not_mem_leafLine (hname : ∀ k : K, RuleText.IsName (TokenKind.name k))
    (t : Token K) (d : Bool) : '\n' ∉ (leafLine t d).toList := by
  have hkind : '\n' ∉ (TokenKind.name t.kind).toList := (hname t.kind).not_mem rfl
  have hmark : '\n' ∉ (markText d).toList := by cases d <;> decide
  simp [toList_leafLine, hkind, newline_not_mem_quoted, hmark]

/-! ### A line of either sort -/

namespace Line

theorem exists_toList_text_eq (l : Line K α) :
    ∃ c cs, l.text.toList = c :: cs ∧ c ≠ ' ' := by
  cases l with
  | node l => exact ⟨_, _, toList_nodeLine l, by decide⟩
  | leaf t d => exact ⟨_, _, toList_leafLine t d, by decide⟩

variable (hname : ∀ k : K, RuleText.IsName (TokenKind.name k))

include hname

theorem newline_not_mem_text {l : Line K α} (hl : l.IsLegible) :
    '\n' ∉ l.text.toList := by
  cases l with
  | node l => exact newline_not_mem_nodeLine hl
  | leaf t d => exact newline_not_mem_leafLine hname t d

/-- **A line is read back from its text**, but for callbacks and places. -/
theorem shown_eq_of_text_eq (hinj : Function.Injective (TokenKind.name (K := K)))
    {l : Line K α} {l' : Line K β} (hl : l.IsLegible) (hl' : l'.IsLegible)
    (h : l.text = l'.text) : l.shown = l'.shown := by
  have hsign {t : Token K} {d : Bool} {γ : Type} {l : Label K γ}
      (h : leafLine t d = nodeLine l) : False := by
    rw [← String.toList_inj, toList_leafLine, toList_nodeLine] at h
    revert h
    simp
  cases l with
  | node l =>
    cases l' with
    | node l' => exact congrArg Line.node (shown_eq_of_nodeLine_eq hl hl' h)
    | leaf => exact (hsign h.symm).elim
  | leaf t d =>
    cases l' with
    | node => exact (hsign h).elim
    | leaf t' d' =>
      obtain ⟨ht, hd⟩ := shown_eq_of_leafLine_eq hname hinj h
      rw [shown, shown, ht, hd]

end Line

end Tokens

end Tree

end Descent
