/-
# Truth tables

One column for each variable of a formula, in the order of first occurrence, and one for the
formula; one row for each valuation.
-/
import Sentential.Formula.Value
import Sentential.Formula.Variables

namespace Sentential

/-- The truth table of a formula. -/
structure TruthTable where
  formula : Formula
  columns : List Variable
  rows : List (Valuation × Bool)

namespace TruthTable

/-- The truth table of a formula. -/
def ofFormula (f : Formula) : Except ValueError TruthTable :=
  let valuations := Valuation.all f.variableSet
  (f.values valuations).map fun results =>
    { formula := f, columns := f.variableSet.toList, rows := valuations.zip results }

/-- The value of the formula in each row. -/
def results (t : TruthTable) : List Bool :=
  t.rows.map Prod.snd

/-- One line of the table: the cells of the variables, then what stands in the last column. -/
def line (cells : List Char) (last : List Char) : List Char :=
  '|' :: cells.flatMap (fun c => [' ', c, ' ', '|']) ++ ' ' :: last

/-- The line that names the columns. -/
def header (t : TruthTable) : List Char :=
  line (t.columns.map Variable.name) t.formula.text

/-- The line of one row.  Its cells are in the order of the valuation. -/
def rowLine (row : Valuation × Bool) : List Char :=
  line (row.1.entries.map (fun e => truthLetter e.2)) [truthLetter row.2]

/-- The lines of the table: the header, a rule of the same width, and the rows. -/
def lines (t : TruthTable) : List (List Char) :=
  t.header :: List.replicate t.header.length '-' :: t.rows.map rowLine

/-- The table as it is printed, each line with its line feed. -/
def text (t : TruthTable) : String :=
  String.ofList (t.lines.flatMap (· ++ ['\n']))

end TruthTable
end Sentential
