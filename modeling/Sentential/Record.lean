/-
# Records

What is kept of an exercise.
-/
namespace Sentential

/-- The prompt of an exercise and the canonical text of its formula. -/
structure Record where
  prompt : String
  formula : String
deriving DecidableEq

end Sentential
