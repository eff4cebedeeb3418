import Descent.Proofs.Tree.Line
import Descent.Proofs.Tree.Map
import Descent.Proofs.Tree.Nodes

/-!
# What a dump tells of a tree

A dump is made of lines, one for each node and each token, in order and with their
depths (`Tree.lines`). The lines below a node are those up to the next one that is
not deeper, so the depths tell which nodes and tokens are the children of which
(`Tree.lines_append_inj`). If each line can be read back, so can the tree: trees
have equal dumps exactly if they are equal but for what dumps do not show
(`Tree.shown_eq_of_dump_eq`, `Tree.dump_shown`).
-/

namespace Descent

variable {K α β : Type}

/-- **The tree without callbacks and places**: its nodes with their names, kinds,
operations and discard marks, and its tokens with their kinds, texts and discard
marks. -/
def Tree.shown : Tree K α → Tree K Unit := Tree.map Label.shown Token.shown id

namespace Tree

/-! ## The lines of a tree -/

mutual

/-- **The lines of a tree** with their depths. -/
def lines (depth : Nat) : Tree K α → List (Nat × Line K α)
  | leaf t d => [(depth, .leaf t d)]
  | node l cs => (depth, .node l) :: linesAll (depth + 1) cs

/-- The lines of some trees with their depths. -/
def linesAll (depth : Nat) : List (Tree K α) → List (Nat × Line K α)
  | [] => []
  | t :: ts => lines depth t ++ linesAll depth ts

end

/-- A line with its blanks. -/
def Line.indented [TokenKind K] (l : Nat × Line K α) : String :=
  indent l.1 ++ l.2.text

mutual

/-- A dump writes down the lines of the tree. -/
theorem dumpLines_eq_map [TokenKind K] (depth : Nat) :
    (t : Tree K α) → t.dumpLines depth = (t.lines depth).map Line.indented
  | leaf .. => rfl
  | node _ cs => congrArg (List.cons _) (dumpLinesAll_eq_map (depth + 1) cs)

theorem dumpLinesAll_eq_map [TokenKind K] (depth : Nat) :
    (ts : List (Tree K α)) →
      dumpLinesAll depth ts = (linesAll depth ts).map Line.indented
  | [] => rfl
  | t :: ts => by
    rw [dumpLinesAll, linesAll, List.map_append, dumpLines_eq_map depth t,
      dumpLinesAll_eq_map depth ts]

end

mutual

/-- What is shown of a tree has the lines that show it. -/
theorem lines_shown (depth : Nat) :
    (t : Tree K α) → t.shown.lines depth = (t.lines depth).map (Prod.map id Line.shown)
  | leaf .. => rfl
  | node _ cs => congrArg (List.cons _) (linesAll_shown (depth + 1) cs)

theorem linesAll_shown (depth : Nat) :
    (ts : List (Tree K α)) → linesAll depth (mapAll Label.shown Token.shown id ts) =
      (linesAll depth ts).map (Prod.map id Line.shown)
  | [] => rfl
  | t :: ts => by
    rw [mapAll, linesAll, linesAll, List.map_append, linesAll_shown depth ts]
    exact congrArg (· ++ _) (lines_shown depth t)

end

theorem linesAll_eq_flatMap (depth : Nat) (ts : List (Tree K α)) :
    linesAll depth ts = ts.flatMap (lines depth) := by
  induction ts with
  | nil => rfl
  | cons t ts ih => rw [linesAll, ih, List.flatMap_cons]

/-- The lines of a tree can be read back if its labels can. -/
theorem AllNodes.isLegible_of_mem_lines {t : Tree K α}
    (h : t.AllNodes fun l _ => l.IsLegible) {depth : Nat} :
    ∀ line ∈ t.lines depth, line.2.IsLegible := by
  induction h generalizing depth with
  | leaf => exact List.forall_mem_singleton.mpr trivial
  | node hl _ ih =>
    rw [lines, linesAll_eq_flatMap]
    refine List.forall_mem_cons.mpr ⟨hl, fun line hline => ?_⟩
    obtain ⟨c, hc, hline⟩ := List.mem_flatMap.mp hline
    exact ih c hc line hline

/-- The first line of a tree is as deep as the tree. -/
theorem exists_lines_eq_cons (depth : Nat) (t : Tree K α) :
    ∃ line ls, t.lines depth = (depth, line) :: ls := by
  cases t <;> exact ⟨_, _, rfl⟩

/-! ## The tree of the lines -/

/-- **What follows a tree** in a list of lines begins no deeper than the tree. -/
def NoDeeper (depth : Nat) (rest : List (Nat × Line K α)) : Prop :=
  ∀ line ∈ rest.head?, line.1 ≤ depth

variable {depth : Nat} {rest rest' : List (Nat × Line K α)}

/-- The lines of a tree are deeper than what they are below. -/
theorem NoDeeper.ne_lines_append (h : NoDeeper depth rest) (t : Tree K α)
    (ls : List (Nat × Line K α)) : rest ≠ t.lines (depth + 1) ++ ls := by
  rintro rfl
  obtain ⟨line, ls', ht⟩ := exists_lines_eq_cons (depth + 1) t
  have hle := h (depth + 1, line) (by rw [ht]; rfl)
  exact absurd hle (Nat.not_succ_le_self depth)

/-- What follows some trees follows the one before them. -/
theorem NoDeeper.linesAll_append (h : NoDeeper depth rest) (ts : List (Tree K α)) :
    NoDeeper (depth + 1) (linesAll (depth + 1) ts ++ rest) := by
  cases ts with
  | nil => exact fun line hline => Nat.le_succ_of_le (h line hline)
  | cons t ts =>
    obtain ⟨first, ls, ht⟩ := exists_lines_eq_cons (depth + 1) t
    rw [linesAll, ht]
    rintro _ ⟨⟩
    exact Nat.le_refl _

mutual

/-- **A tree is read back from its lines**, and so is what follows them. -/
theorem lines_append_inj {depth : Nat} {rest rest' : List (Nat × Line K α)}
    (hrest : NoDeeper depth rest) (hrest' : NoDeeper depth rest') :
    (t u : Tree K α) → t.lines depth ++ rest = u.lines depth ++ rest' →
      t = u ∧ rest = rest'
  | leaf .., leaf .., h => by
    obtain ⟨hline, hrests⟩ := List.cons.inj h
    obtain ⟨rfl, rfl⟩ := Line.leaf.inj (Prod.mk.inj hline).2
    exact ⟨rfl, hrests⟩
  | leaf .., node .., h | node .., leaf .., h => by
    have hline := (Prod.mk.inj (List.cons.inj h).1).2
    cases hline
  | node l cs, node l' cs', h => by
    obtain ⟨hline, hlines⟩ := List.cons.inj h
    obtain rfl := Line.node.inj (Prod.mk.inj hline).2
    obtain ⟨rfl, hrests⟩ := linesAll_append_inj hrest hrest' cs cs' hlines
    exact ⟨rfl, hrests⟩

theorem linesAll_append_inj {depth : Nat} {rest rest' : List (Nat × Line K α)}
    (hrest : NoDeeper depth rest) (hrest' : NoDeeper depth rest') :
    (ts us : List (Tree K α)) →
      linesAll (depth + 1) ts ++ rest = linesAll (depth + 1) us ++ rest' →
      ts = us ∧ rest = rest'
  | [], [], h => ⟨rfl, h⟩
  | [], u :: us, h => by
    rw [linesAll.eq_2, List.append_assoc] at h
    exact absurd h (hrest.ne_lines_append u _)
  | t :: ts, [], h => by
    rw [linesAll.eq_2, List.append_assoc] at h
    exact absurd h.symm (hrest'.ne_lines_append t _)
  | t :: ts, u :: us, h => by
    rw [linesAll, linesAll, List.append_assoc, List.append_assoc] at h
    obtain ⟨rfl, hlines⟩ := lines_append_inj (hrest.linesAll_append ts)
      (hrest'.linesAll_append us) t u h
    obtain ⟨rfl, hrests⟩ := linesAll_append_inj hrest hrest' ts us hlines
    exact ⟨rfl, hrests⟩

end

/-- **A tree is read back from its lines.** -/
theorem lines_injective {t u : Tree K α} (h : t.lines 0 = u.lines 0) : t = u := by
  have hnone : NoDeeper (K := K) (α := α) 0 [] := fun _ h => by cases h
  refine (lines_append_inj hnone hnone t u ?_).1
  rw [List.append_nil, List.append_nil, h]

/-! ## The tree of a dump -/

/-- How deep a line is can be seen from its blanks. -/
theorem indent_append_inj {d e : Nat} {a b : Char} {us vs : List Char} (ha : a ≠ ' ')
    (hb : b ≠ ' ') (h : (indent d).toList ++ a :: us = (indent e).toList ++ b :: vs) :
    d = e ∧ a :: us = b :: vs := by
  have hblanks (d : Nat) {a : Char} (ha : a ≠ ' ') (us : List Char) :
      ((indent d).toList ++ a :: us).takeWhile (· == ' ') = (indent d).toList := by
    rw [indent, String.toList_ofList, List.takeWhile_append_of_pos
      fun c hc => beq_iff_eq.mpr (List.eq_of_mem_replicate hc),
      List.takeWhile_cons_of_neg (by simpa using ha), List.append_nil]
  have hindent : (indent d).toList = (indent e).toList := by
    rw [← hblanks d ha us, h, hblanks e hb]
  have hlength := congrArg List.length hindent
  simp only [indent, String.toList_ofList, List.length_replicate] at hlength
  rw [hindent] at h
  exact ⟨by omega, List.append_cancel_left h⟩

variable [TokenKind K]

section Reading

variable (hname : ∀ k : K, RuleText.IsName (TokenKind.name k))

include hname

/-- A line with its blanks is one line. -/
theorem Line.newline_not_mem_indented {l : Nat × Line K α} (hl : l.2.IsLegible) :
    '\n' ∉ (Line.indented l).toList := by
  have hblanks : '\n' ∉ (indent l.1).toList := by
    rw [indent, String.toList_ofList]
    exact fun h => absurd (List.eq_of_mem_replicate h) (by decide)
  rw [Line.indented, String.toList_append, List.mem_append]
  exact not_or.mpr ⟨hblanks, newline_not_mem_text hname hl⟩

variable (hinj : Function.Injective (TokenKind.name (K := K)))

include hinj

/-- **A line is read back with its depth**, but for callbacks and places. -/
theorem Line.shown_eq_of_indented_eq {l : Nat × Line K α} {l' : Nat × Line K β}
    (hl : l.2.IsLegible) (hl' : l'.2.IsLegible)
    (h : Line.indented l = Line.indented l') :
    Prod.map id Line.shown l = Prod.map id Line.shown l' := by
  obtain ⟨a, us, ha, hblank⟩ := exists_toList_text_eq l.2
  obtain ⟨b, vs, hb, hblank'⟩ := exists_toList_text_eq l'.2
  rw [Line.indented, Line.indented, ← String.toList_inj, String.toList_append,
    String.toList_append, ha, hb] at h
  obtain ⟨hdepth, htext⟩ := indent_append_inj hblank hblank' h
  rw [← ha, ← hb, String.toList_inj] at htext
  exact Prod.ext hdepth (shown_eq_of_text_eq hname hinj hl hl' htext)

/-- Lists of lines are read back. -/
theorem map_shown_eq_of_map_indented_eq {ls : List (Nat × Line K α)}
    {ls' : List (Nat × Line K β)} (hls : ∀ l ∈ ls, l.2.IsLegible)
    (hls' : ∀ l ∈ ls', l.2.IsLegible)
    (h : ls.map Line.indented = ls'.map Line.indented) :
    ls.map (Prod.map id Line.shown) = ls'.map (Prod.map id Line.shown) := by
  induction ls generalizing ls' with
  | nil =>
    obtain rfl := List.map_eq_nil_iff.mp h.symm
    rfl
  | cons l ls ih =>
    cases ls' with
    | nil => cases h
    | cons l' ls' =>
      obtain ⟨hl, hls⟩ := List.forall_mem_cons.mp hls
      obtain ⟨hl', hls'⟩ := List.forall_mem_cons.mp hls'
      obtain ⟨hline, hrest⟩ := List.cons.inj h
      rw [List.map_cons, List.map_cons,
        Line.shown_eq_of_indented_eq hname hinj hl hl' hline, ih hls hls' hrest]

/-- **A tree is read back from its dump**, but for callbacks and places, if its
labels are as parsing makes them. -/
theorem shown_eq_of_dump_eq {t : Tree K α} {u : Tree K β}
    (ht : t.AllNodes fun l _ => l.IsLegible) (hu : u.AllNodes fun l _ => l.IsLegible)
    (h : t.dump = u.dump) : t.shown = u.shown := by
  have hline {γ : Type} {t : Tree K γ} (ht : t.AllNodes fun l _ => l.IsLegible) :
      ∀ line ∈ (t.lines 0).map Line.indented, '\n' ∉ line.toList :=
    List.forall_mem_map.mpr fun l hl =>
      Line.newline_not_mem_indented hname (ht.isLegible_of_mem_lines l hl)
  rw [dump, dump, dumpLines_eq_map, dumpLines_eq_map] at h
  refine lines_injective ?_
  rw [lines_shown, lines_shown]
  exact map_shown_eq_of_map_indented_eq hname hinj ht.isLegible_of_mem_lines
    hu.isLegible_of_mem_lines (join_lines_inj (hline ht) (hline hu) h)

end Reading

/-- **Callbacks and places do not matter to a dump.** -/
theorem dump_shown (t : Tree K α) : t.shown.dump = t.dump := by
  have hline (l : Nat × Line K α) :
      Line.indented (Prod.map id Line.shown l) = Line.indented l := by
    obtain ⟨depth, _ | _⟩ := l <;> rfl
  have hlines : (t.shown.lines 0).map Line.indented = (t.lines 0).map Line.indented := by
    rw [lines_shown, List.map_map]
    exact List.map_congr_left fun l _ => hline l
  rw [dump, dump, dumpLines_eq_map, dumpLines_eq_map, hlines]

end Tree

end Descent
