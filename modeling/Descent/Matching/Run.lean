import Descent.Matching.Furthest

/-!
# Matching runs

A run stands at a token index and remembers what has happened since it began.
Matching takes a run and gives an `Outcome`: it **matched**, with what it
matched and the run after it; it **failed**, with the run as it was then; or
it was **exhausted**, which says nothing about the tokens, only that the step
budget was too small.

A failed attempt does not undo itself. Whoever tries something else instead
restores the index first, and the trace keeps what the attempt has seen.
-/

namespace Descent

/-- **A matching run**: where it stands and what has happened, the latest
first. -/
structure Run (K : Type) where
  /-- The index of the token to be matched next. -/
  index : Nat
  /-- What has happened. -/
  trace : List (Event K)
  deriving DecidableEq

namespace Run

variable {K : Type}

/-- The run before the first token. -/
def start : Run K := ⟨0, []⟩

/-- Notes an event. -/
def log (r : Run K) (e : Event K) : Run K := ⟨r.index, e :: r.trace⟩

/-- Consumes a token. -/
def advance (r : Run K) : Run K := ⟨r.index + 1, .advance r.index :: r.trace⟩

/-- Goes back to an index. -/
def restore (r : Run K) (index : Nat) : Run K :=
  ⟨index, .restore r.index index :: r.trace⟩

/-- Notes that a kind was wanted here. -/
def expect (r : Run K) (kind : K) : Run K := r.log (.expect r.index kind)

/-- Notes that some kinds were wanted here. -/
def expectAll (r : Run K) (kinds : List K) : Run K := kinds.foldl expect r

/-- Notes that nothing can be matched here. -/
def reach (r : Run K) : Run K := r.log (.reach r.index)

/-- Notes that a non-terminal is entered here. -/
def enter (r : Run K) (name : String) : Run K := r.log (.enter r.index name)

/-- The furthest failure of the run. -/
def furthest [DecidableEq K] (r : Run K) : Furthest K := .ofTrace r.trace

/-- The index at which a failed run is reported. -/
def errorIndex [DecidableEq K] (r : Run K) : Nat := r.furthest.index.getD 0

@[simp] theorem index_start : (start : Run K).index = 0 := rfl

@[simp] theorem index_log (r : Run K) (e : Event K) : (r.log e).index = r.index := rfl

@[simp] theorem index_advance (r : Run K) : r.advance.index = r.index + 1 := rfl

@[simp] theorem index_restore (r : Run K) (index : Nat) :
    (r.restore index).index = index := rfl

@[simp] theorem index_expect (r : Run K) (kind : K) :
    (r.expect kind).index = r.index := rfl

@[simp] theorem index_reach (r : Run K) : r.reach.index = r.index := rfl

@[simp] theorem index_enter (r : Run K) (name : String) :
    (r.enter name).index = r.index := rfl

@[simp] theorem index_expectAll (r : Run K) (kinds : List K) :
    (r.expectAll kinds).index = r.index := by
  unfold expectAll
  induction kinds generalizing r with
  | nil => rfl
  | cons k ks ih => rw [List.foldl_cons, ih, index_expect]

end Run

/-- **How a matching attempt ends.** -/
inductive Outcome (K β : Type) where
  /-- The step budget was used up. -/
  | exhausted
  /-- Nothing matched. -/
  | failed (run : Run K)
  /-- Something matched. -/
  | matched (value : β) (run : Run K)

namespace Outcome

variable {K β γ : Type}

@[simp] theorem failed_ne_exhausted (r : Run K) :
    (failed r : Outcome K β) ≠ exhausted := nofun

@[simp] theorem matched_ne_exhausted (x : β) (r : Run K) :
    matched x r ≠ exhausted := nofun

/-- Goes on after a match. -/
def bind : Outcome K β → (β → Run K → Outcome K γ) → Outcome K γ
  | exhausted, _ => exhausted
  | failed r, _ => failed r
  | matched x r, f => f x r

/-- Changes what was matched. -/
def map (f : β → γ) : Outcome K β → Outcome K γ
  | exhausted => exhausted
  | failed r => failed r
  | matched x r => matched (f x) r

/-- Tries something else after a failure. -/
def orElse : Outcome K β → (Run K → Outcome K β) → Outcome K β
  | exhausted, _ => exhausted
  | failed r, f => f r
  | matched x r, _ => matched x r

@[simp] theorem bind_exhausted (f : β → Run K → Outcome K γ) :
    (exhausted : Outcome K β).bind f = exhausted := rfl

@[simp] theorem bind_failed (r : Run K) (f : β → Run K → Outcome K γ) :
    (failed r : Outcome K β).bind f = failed r := rfl

@[simp] theorem bind_matched (x : β) (r : Run K) (f : β → Run K → Outcome K γ) :
    (matched x r).bind f = f x r := rfl

@[simp] theorem map_exhausted (f : β → γ) :
    (exhausted : Outcome K β).map f = exhausted := rfl

@[simp] theorem map_failed (f : β → γ) (r : Run K) :
    (failed r : Outcome K β).map f = failed r := rfl

@[simp] theorem map_matched (f : β → γ) (x : β) (r : Run K) :
    (matched x r).map f = matched (f x) r := rfl

@[simp] theorem map_eq_exhausted_iff {f : β → γ} {o : Outcome K β} :
    o.map f = exhausted ↔ o = exhausted := by
  cases o <;> simp

@[simp] theorem map_eq_failed_iff {f : β → γ} {o : Outcome K β} {r : Run K} :
    o.map f = failed r ↔ o = failed r := by
  cases o <;> simp

@[simp] theorem orElse_exhausted (f : Run K → Outcome K β) :
    (exhausted : Outcome K β).orElse f = exhausted := rfl

@[simp] theorem orElse_failed (r : Run K) (f : Run K → Outcome K β) :
    (failed r : Outcome K β).orElse f = f r := rfl

@[simp] theorem orElse_matched (x : β) (r : Run K) (f : Run K → Outcome K β) :
    (matched x r).orElse f = matched x r := rfl

end Outcome

end Descent
