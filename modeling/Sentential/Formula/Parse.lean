/-
# The formula that a text is

* `Formula.parse`: the formula that is the whole text;
* `Formula.parseFront`: the formula that the text begins with, and what follows it;
* `Formula.parseSeries`: the formulas that a text consists of, one after another.
-/
import Sentential.Formula.Reader

namespace Sentential
namespace Formula

/-- The formula at the start of the text, and what follows it. -/
def parseFront (s : String) : Except SyntaxError (Formula × String) :=
  match Reader.formula s.toList 0 with
  | .ok f rest _ _ => .ok (f, String.ofList rest)
  | .noMatch e _ _ => .error e
  | .failure e _ _ => .error e

/-- The formula that is the whole text. -/
def parse (s : String) : Except SyntaxError Formula :=
  match Reader.formula s.toList 0 with
  | .ok f [] _ _ => .ok f
  | .ok _ rest _ _ => .error (.trailingCharacters (String.ofList rest))
  | .noMatch e _ _ => .error e
  | .failure e _ _ => .error e

/-- Formulas read one after another: each with the text behind it, and the error that ended the
series before the end of the text. -/
structure Series where
  formulas : List (Formula × String)
  error? : Option SyntaxError

/-- Reads one formula after another until nothing is left or no formula follows. -/
def readSeries (text : List Char) : Series :=
  match Reader.formula text 0 with
  | .ok f [] _ _ => ⟨[(f, "")], none⟩
  | .ok f (c :: cs) _ _ =>
    let later := readSeries (c :: cs)
    ⟨(f, String.ofList (c :: cs)) :: later.formulas, later.error?⟩
  | .noMatch e _ _ => ⟨[], some e⟩
  | .failure e _ _ => ⟨[], some e⟩
termination_by text.length

/-- The formulas that the text consists of, as far as they can be read. -/
def parseSeries (s : String) : Series :=
  readSeries s.toList

end Formula
end Sentential
