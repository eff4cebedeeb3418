/-!
# Faults

A computation can end in three ways: with a result, with an error that
belongs to its subject (a text that is not in the language, a grammar that
is not usable), or with no answer at all. A **fault** is the third. It is
kept apart from errors because no host can repair it by changing the text or
the grammar: a counter left its width, an index left its list, or the step
budget of a matching run ran out.

Faults travel in `Except Fault`, outside whatever `Except` carries the
errors.
-/

namespace Descent

/-- **Why a computation gave no answer.** -/
inductive Fault where
  /-- A counter was increased past the largest value it can hold. -/
  | addOverflow
  /-- A larger number was taken from a smaller one. -/
  | subOverflow
  /-- A cursor was sent to an index past the end of its tokens. -/
  | cursorOutOfBounds (index limit : Nat)
  /-- A matching run used up its step budget. -/
  | exhausted
  deriving DecidableEq, Repr

namespace Fault

/-- The text a fault is reported with. -/
def message : Fault → String
  | addOverflow => "attempt to add with overflow"
  | subOverflow => "attempt to subtract with overflow"
  | cursorOutOfBounds index limit =>
    s!"cursor position {index} out of bounds (max {limit})"
  | exhausted => "step budget exhausted"

end Fault

end Descent
