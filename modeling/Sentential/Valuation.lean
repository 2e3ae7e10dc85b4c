/-
# Valuations

Truth values for some of the variables, and the list of all valuations of a set in the order of a
truth table: false before true, the last variable changing fastest.

* `mem_truthRows`: every list of `n` truth values is a row.
-/
import Sentential.Variable.Map

namespace Sentential

/-- Truth values for some of the variables. -/
abbrev Valuation : Type := VariableMap Bool

/-- `T` or `F`, as shown in truth tables. -/
def truthLetter : Bool → Char
  | true => 'T'
  | false => 'F'

/-- The lists of `n` truth values in alphabetical order, false before true. -/
def truthRows : Nat → List (List Bool)
  | 0 => [[]]
  | n + 1 => (truthRows n).map (false :: ·) ++ (truthRows n).map (true :: ·)

namespace Valuation

/-- The valuation as shown to a reader, in the order of insertion. -/
def text (v : Valuation) : String :=
  let shown := v.entries.map (fun (a, b) => a.name.toString ++ ": " ++ (truthLetter b).toString)
  "\x7b" ++ ", ".intercalate shown ++ "\x7d"

/-- Every valuation that binds exactly the variables of `V`, in the order of a truth table. -/
def all (V : VariableSet) : List Valuation :=
  (truthRows V.size).map (VariableMap.zip V)

end Valuation

theorem mem_truthRows {n : Nat} {row : List Bool} : row ∈ truthRows n ↔ row.length = n := by
  induction n generalizing row with
  | zero => simp [truthRows]
  | succ n ih =>
    cases row with
    | nil => simp [truthRows]
    | cons b bs => cases b <;> simp [truthRows, ih]

end Sentential
