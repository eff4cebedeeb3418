import Descent.Token.Basic

/-!
# Clauses

The right-hand side of a rule is a sequence of clauses. The plain clauses are
a token of some kind and a reference to a non-terminal; either can be marked
as discarded, which leaves matching as it is and hides the matched part from
callbacks. The other clauses are built from clauses: groups, choices, options
and repetitions.

Three things are computed here from a clause alone, given which non-terminals
are nullable: whether the clause can match nothing (`Clause.isNullable`), and
which references can come first in a match (`Clause.leftmost`), beside all
references in it (`Clause.references`).
-/

namespace Descent

/-- **One part of the right-hand side of a rule.** -/
inductive Clause (K : Type) where
  /-- A token of a kind. -/
  | token (kind : K) (discarded : Bool)
  /-- Whatever the non-terminal of that name matches. -/
  | reference (name : String) (discarded : Bool)
  /-- The members one after the other. -/
  | group (members : List (Clause K))
  /-- The first branch that matches. -/
  | choice (branches : List (Clause K))
  /-- The body or nothing. -/
  | optional (body : Clause K)
  /-- The body as often as it matches. -/
  | star (body : Clause K)
  /-- The body as often as it matches, and at least once. -/
  | plus (body : Clause K)

namespace Clause

variable {K : Type}

/-- Whether a clause is a token or a reference. -/
def isPlain : Clause K → Bool
  | token .. | reference .. => true
  | _ => false

/-- Whether a clause is marked as discarded. -/
def isDiscarded : Clause K → Bool
  | token _ d | reference _ d => d
  | _ => false

/-- The clause marked as discarded; only plain clauses carry the mark. -/
def discard : Clause K → Clause K
  | token kind _ => token kind true
  | reference name _ => reference name true
  | other => other

/-! ## The written form -/

/-- How the mark of a discarded clause is written. -/
def markText (discarded : Bool) : String := if discarded then " [d]" else ""

mutual

/-- **The clause as it is written in a rule text.** -/
def display [TokenKind K] : Clause K → String
  | token kind d => TokenKind.name kind ++ markText d
  | reference name d => name ++ markText d
  | group members => "(" ++ " ".intercalate (displayAll members) ++ ")"
  | choice branches => "(" ++ " | ".intercalate (displayAll branches) ++ ")"
  | optional body => display body ++ "?"
  | star body => display body ++ "*"
  | plus body => display body ++ "+"

/-- Each clause of a list as it is written. -/
def displayAll [TokenKind K] : List (Clause K) → List String
  | [] => []
  | c :: cs => display c :: displayAll cs

end

mutual

/-- The clause with the cases it is made of. -/
def description [TokenKind K] : Clause K → Description
  | token kind d =>
    .record "Terminal"
      [("kind", .word (TokenKind.label kind)), ("discarded", .bool d)] true
  | reference name d =>
    .record "NonTerminal" [("name", .text name), ("discarded", .bool d)] true
  | group members => .apply "Group" [.list (descriptions members)]
  | choice branches => .apply "Alternation" [.list (descriptions branches)]
  | optional body => .apply "Optional" [description body]
  | star body => .apply "ZeroOrMore" [description body]
  | plus body => .apply "OneOrMore" [description body]

/-- The clauses of a list, each with the cases it is made of. -/
def descriptions [TokenKind K] : List (Clause K) → List Description
  | [] => []
  | c :: cs => description c :: descriptions cs

end

/-! ## References -/

mutual

/-- The names referred to in a clause, in order and with repetitions. -/
def references : Clause K → List String
  | token .. => []
  | reference name _ => [name]
  | group members => referencesAll members
  | choice branches => referencesAll branches
  | optional body | star body | plus body => references body

/-- The names referred to in a list of clauses. -/
def referencesAll : List (Clause K) → List String
  | [] => []
  | c :: cs => references c ++ referencesAll cs

end

mutual

/-- **Whether a clause can match nothing**, given which names can. -/
def isNullable (nullable : String → Bool) : Clause K → Bool
  | token .. => false
  | reference name _ => nullable name
  | group members => allNullable nullable members
  | choice branches => anyNullable nullable branches
  | optional _ | star _ => true
  | plus body => isNullable nullable body

/-- Whether all clauses of a list can match nothing. -/
def allNullable (nullable : String → Bool) : List (Clause K) → Bool
  | [] => true
  | c :: cs => isNullable nullable c && allNullable nullable cs

/-- Whether some clause of a list can match nothing. -/
def anyNullable (nullable : String → Bool) : List (Clause K) → Bool
  | [] => false
  | c :: cs => isNullable nullable c || anyNullable nullable cs

end

mutual

/-- **The names that can come first in a match**, given which names can match
nothing: a clause of a sequence can come first if all clauses before it can
match nothing. -/
def leftmost (nullable : String → Bool) : Clause K → List String
  | token .. => []
  | reference name _ => [name]
  | group members => leftmostSeq nullable members
  | choice branches => leftmostAny nullable branches
  | optional body | star body | plus body => leftmost nullable body

/-- The names that can come first in a match of a sequence. -/
def leftmostSeq (nullable : String → Bool) : List (Clause K) → List String
  | [] => []
  | c :: cs =>
    leftmost nullable c ++
      if isNullable nullable c then leftmostSeq nullable cs else []

/-- The names that can come first in a match of one of several branches. -/
def leftmostAny (nullable : String → Bool) : List (Clause K) → List String
  | [] => []
  | c :: cs => leftmost nullable c ++ leftmostAny nullable cs

end

/-! ## Short laws -/

@[simp] theorem isDiscarded_discard {c : Clause K} (h : c.isPlain = true) :
    c.discard.isDiscarded = true := by
  cases c <;> simp_all [isPlain, discard, isDiscarded]

@[simp] theorem discard_discard (c : Clause K) : c.discard.discard = c.discard := by
  cases c <;> rfl

@[simp] theorem references_discard (c : Clause K) :
    c.discard.references = c.references := by
  cases c <;> rfl

theorem displayAll_eq_map [TokenKind K] (cs : List (Clause K)) :
    displayAll cs = cs.map display := by
  induction cs with
  | nil => rfl
  | cons c cs ih => rw [displayAll, ih, List.map_cons]

theorem referencesAll_eq_flatMap (cs : List (Clause K)) :
    referencesAll cs = cs.flatMap references := by
  induction cs with
  | nil => rfl
  | cons c cs ih => rw [referencesAll, ih, List.flatMap_cons]

theorem allNullable_eq_all (nullable : String → Bool) (cs : List (Clause K)) :
    allNullable nullable cs = cs.all (isNullable nullable) := by
  induction cs with
  | nil => rfl
  | cons c cs ih => rw [allNullable, ih, List.all_cons]

theorem anyNullable_eq_any (nullable : String → Bool) (cs : List (Clause K)) :
    anyNullable nullable cs = cs.any (isNullable nullable) := by
  induction cs with
  | nil => rfl
  | cons c cs ih => rw [anyNullable, ih, List.any_cons]

theorem leftmostAny_eq_flatMap (nullable : String → Bool) (cs : List (Clause K)) :
    leftmostAny nullable cs = cs.flatMap (leftmost nullable) := by
  induction cs with
  | nil => rfl
  | cons c cs ih => rw [leftmostAny, ih, List.flatMap_cons]

theorem referencesAll_append (cs ds : List (Clause K)) :
    referencesAll (cs ++ ds) = referencesAll cs ++ referencesAll ds := by
  simp [referencesAll_eq_flatMap]

theorem allNullable_append (nullable : String → Bool) (cs ds : List (Clause K)) :
    allNullable nullable (cs ++ ds) =
      (allNullable nullable cs && allNullable nullable ds) := by
  simp [allNullable_eq_all]

/-- What can come first in a sequence comes first in its beginning, or in its end
after a beginning that can match nothing. -/
theorem leftmostSeq_append (nullable : String → Bool) (cs ds : List (Clause K)) :
    leftmostSeq nullable (cs ++ ds) = leftmostSeq nullable cs ++
      if allNullable nullable cs then leftmostSeq nullable ds else [] := by
  induction cs with
  | nil => rfl
  | cons c cs ih =>
    rw [List.cons_append, leftmostSeq, ih, leftmostSeq, allNullable]
    cases isNullable nullable c <;> simp

end Clause

end Descent
