/-!
# Abandoned computations

Scanning functions and parse routines are programs of the caller: they may loop for ever, and
they may build a keyword table that is out of order.  Both are reported as a cause for which the
whole computation is abandoned, apart from the errors that a parse returns.
-/

namespace FrontEnd

/-- Why a computation was abandoned without an answer. -/
inductive Halt
  /-- The step budget was spent before the program finished. -/
  | outOfFuel
  /-- A keyword table was built from words that do not strictly increase. -/
  | unsortedKeywords
deriving DecidableEq, Inhabited

/-- The wording of a cause. -/
def Halt.message : Halt → String
  | .outOfFuel => "step budget exhausted"
  | .unsortedKeywords => "keyword table must be strictly sorted"

end FrontEnd
