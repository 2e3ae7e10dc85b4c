/-
# Checking an answer

An answer is right when it is equivalent to the expected formula.  An answer that is no formula
is an error, not a wrong answer.
-/
import Sentential.Formula.Equivalent
import Sentential.Formula.Parse

namespace Sentential

/-- Why an answer cannot be judged. -/
inductive AnswerError where
  | malformed (error : SyntaxError)
  | valueless (error : ValueError)
deriving DecidableEq

/-- The error in words. -/
def AnswerError.message : AnswerError → String
  | .malformed e => "malformed answer: " ++ e.message
  | .valueless e => e.message

/-- The judgement of an answer: whether it is right, or why that cannot be said. -/
abbrev Verdict : Type := Except AnswerError Bool

/-- Judges an answer, read as it stands, against the expected formula. -/
def judge (expected : Formula) (answer : String) : Verdict :=
  match Formula.parse answer with
  | .error e => .error (.malformed e)
  | .ok f =>
    match f.equivalent expected with
    | .error e => .error (.valueless e)
    | .ok right => .ok right

end Sentential
