/-!
# The furthest failure

A failed match has usually failed many times, at many indices: every branch
that was given up failed somewhere. What is worth reporting is where matching
got furthest, and which kinds of token would have let it go on there.

A matching run leaves a trace of events. `Furthest` is the summary of a
trace: the largest index at which anything failed and the kinds expected at
that index, each once and in the order of their first mention.
-/

namespace Descent

/-- **What happens in a matching run**, at token indices. -/
inductive Event (K : Type) where
  /-- The token at the index was consumed. -/
  | advance (index : Nat)
  /-- The run went back from one index to another. -/
  | restore (source target : Nat)
  /-- A token of a kind was wanted at the index and was not there. -/
  | expect (index : Nat) (kind : K)
  /-- Nothing could be matched at the index, whatever the token. -/
  | reach (index : Nat)
  /-- The non-terminal of a name was entered at the index. -/
  | enter (index : Nat) (name : String)
  deriving DecidableEq

/-- **The furthest failure so far.** -/
structure Furthest (K : Type) where
  /-- The largest index at which something failed, if anything did. -/
  index : Option Nat
  /-- The kinds expected there. -/
  expected : List K
  deriving DecidableEq

namespace Furthest

variable {K : Type}

/-- Nothing has failed yet. -/
def nowhere : Furthest K := ⟨none, []⟩

/-- Notes a failure at an index. Only a larger index than all before counts,
and it makes what was expected before irrelevant. -/
def reach (f : Furthest K) (index : Nat) : Furthest K :=
  match f.index with
  | some furthest => if index ≤ furthest then f else ⟨some index, []⟩
  | none => ⟨some index, []⟩

/-- Notes that a kind was expected at an index. -/
def expect [DecidableEq K] (f : Furthest K) (index : Nat) (kind : K) :
    Furthest K :=
  let g := f.reach index
  if g.index = some index ∧ kind ∉ g.expected then
    { g with expected := g.expected ++ [kind] }
  else g

/-- Notes an event; moves and entries are no failures. -/
def note [DecidableEq K] (f : Furthest K) : Event K → Furthest K
  | .advance _ | .restore .. | .enter .. => f
  | .expect index kind => f.expect index kind
  | .reach index => f.reach index

/-- **The summary of a list of events**, the latest of which stands first. -/
def ofTrace [DecidableEq K] (trace : List (Event K)) : Furthest K :=
  trace.foldr (fun e f => f.note e) nowhere

@[simp] theorem ofTrace_nil [DecidableEq K] :
    ofTrace ([] : List (Event K)) = nowhere := rfl

@[simp] theorem ofTrace_cons [DecidableEq K] (e : Event K)
    (trace : List (Event K)) : ofTrace (e :: trace) = (ofTrace trace).note e :=
  rfl

end Furthest

end Descent
