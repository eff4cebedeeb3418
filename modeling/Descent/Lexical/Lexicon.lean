import Descent.Lexical.Pattern

/-!
# Lexicons

A lexicon is a list of lexical rules: what each pattern reads is a token of
some kind or is skipped. Of all rules that read something at the head of the
input the one that reads most wins, and of several that read equally much
the one listed first.

`Lexicon.lexemes` cuts a whole text into lexemes. Where no rule applies the
lexeme is unrecognized: a single character, or everything that is left if a
fence is opened there and never closed. The lexemes put together are the text
again (`flatMap_text_lexemes`), whatever the rules.
-/

namespace Descent

/-- What becomes of a lexeme. -/
inductive Reading (K : Type) where
  /-- It is a token. -/
  | token (kind : K)
  /-- It only separates tokens. -/
  | skipped
  /-- No rule reads it. -/
  | unrecognized
  deriving DecidableEq

/-- **A lexical rule**: a pattern and the kind of the tokens it reads, or
none if what it reads is skipped. -/
structure LexicalRule (K : Type) where
  /-- The texts read. -/
  pattern : Pattern
  /-- The kind of token that is read. -/
  kind? : Option K

/-- **The lexical rules of a language**, the first of equals first. -/
abbrev Lexicon (K : Type) := List (LexicalRule K)

/-- A piece of a text and what becomes of it. -/
structure Lexeme (K : Type) where
  /-- What becomes of the piece. -/
  reading : Reading K
  /-- The characters of the piece. -/
  text : List Char

namespace Lexicon

variable {K : Type}

/-- What a rule's lexemes become. -/
def readingOf (rule : LexicalRule K) : Reading K :=
  match rule.kind? with
  | some kind => .token kind
  | none => .skipped

/-- The better of two candidates, each a reading and its length: the longer,
and of equals the first. -/
def better (a b : Reading K × Nat) : Reading K × Nat :=
  if a.2 < b.2 then b else a

/-- The rules that read something at the head of the input, with the lengths
they read. -/
def candidates (lexicon : Lexicon K) (cs : List Char) : List (Reading K × Nat) :=
  lexicon.filterMap fun rule =>
    (rule.pattern.length? cs).map fun n => (readingOf rule, n)

/-- What is read at the head of a non-empty input if no rule reads
anything. -/
def unread (lexicon : Lexicon K) (cs : List Char) : Reading K × Nat :=
  if lexicon.any (·.pattern.isUnclosed cs) then (.unrecognized, cs.length)
  else (.unrecognized, 1)

/-- **The longest reading at the head of the input**, with its length. A
reading of no characters does not count. -/
def longest (lexicon : Lexicon K) (cs : List Char) : Reading K × Nat :=
  let best := (lexicon.candidates cs).foldl better (.unrecognized, 0)
  if best.2 = 0 then lexicon.unread cs else best

/-- The lexemes of a text of which the first `inside` characters belong to a
lexeme that is already read. -/
def lexemesFrom (lexicon : Lexicon K) : (inside : Nat) → List Char → List (Lexeme K)
  | _, [] => []
  | inside + 1, _ :: cs => lexemesFrom lexicon inside cs
  | 0, c :: cs =>
    let best := lexicon.longest (c :: cs)
    ⟨best.1, (c :: cs).take best.2⟩ :: lexemesFrom lexicon (best.2 - 1) cs

/-- **The lexemes of a text**, in order. -/
def lexemes (lexicon : Lexicon K) (cs : List Char) : List (Lexeme K) :=
  lexicon.lexemesFrom 0 cs

theorem longest_pos (lexicon : Lexicon K) {cs : List Char} (h : cs ≠ []) :
    0 < (lexicon.longest cs).2 := by
  have := List.length_pos_iff.mpr h
  simp only [longest, unread]
  repeat' split
  all_goals simp_all
  omega

theorem lexemesFrom_eq_drop (lexicon : Lexicon K) (n : Nat) (cs : List Char) :
    lexicon.lexemesFrom n cs = lexicon.lexemesFrom 0 (cs.drop n) := by
  induction n generalizing cs with
  | zero => simp
  | succ n ih =>
    cases cs with
    | nil => simp [lexemesFrom]
    | cons c cs => rw [lexemesFrom, List.drop_succ_cons, ih]

/-- A text begins with its longest reading and goes on with the lexemes of
the rest. -/
theorem lexemes_cons (lexicon : Lexicon K) (c : Char) (cs : List Char) :
    lexicon.lexemes (c :: cs) =
      ⟨(lexicon.longest (c :: cs)).1,
        (c :: cs).take (lexicon.longest (c :: cs)).2⟩ ::
      lexicon.lexemes ((c :: cs).drop (lexicon.longest (c :: cs)).2) := by
  have h := lexicon.longest_pos (List.cons_ne_nil c cs)
  rw [lexemes, lexemesFrom, lexemesFrom_eq_drop, lexemes]
  obtain ⟨n, hn⟩ : ∃ n, (lexicon.longest (c :: cs)).2 = n + 1 :=
    ⟨_, (Nat.succ_pred_eq_of_pos h).symm⟩
  simp [hn]

/-- **Nothing is lost**: the lexemes put together are the text. -/
theorem flatMap_text_lexemes (lexicon : Lexicon K) (cs : List Char) :
    (lexicon.lexemes cs).flatMap (·.text) = cs := by
  induction hn : cs.length using Nat.strongRecOn generalizing cs with
  | ind n ih =>
    cases cs with
    | nil => rfl
    | cons c cs =>
      have h := lexicon.longest_pos (List.cons_ne_nil c cs)
      rw [lexemes_cons, List.flatMap_cons,
        ih _ (by simp only [List.length_drop]; simp only [List.length_cons] at hn ⊢; omega)
          _ rfl]
      exact List.take_append_drop ..

end Lexicon

end Descent
