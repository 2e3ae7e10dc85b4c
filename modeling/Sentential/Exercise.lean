/-
# Exercises

An exercise is an English sentence and the formula it stands for, which is to be found.  It is
made at random, with the meaning of each variable, or read from a record, without.
-/
import Sentential.Answer
import Sentential.English
import Sentential.English.Vocabulary
import Sentential.Formula.Random
import Sentential.Random.Sample
import Sentential.Record
import Sentential.Text.Blank

namespace Sentential

/-- A sentence, the formula it stands for, and the English meaning of its variables, if known. -/
structure Exercise where
  formula : Formula
  prompt : String
  meaning : Meaning

namespace Exercise

/-- Different propositions for the variables of a set. -/
def drawMeaning {σ : Type} [Source σ] (V : VariableSet) (s : σ) : Meaning × σ :=
  let (nouns, s) := Sample.ofList English.nouns V.size s
  let (adjectives, s) := Sample.ofList English.adjectives V.size s
  (VariableMap.zip V (List.zipWith Proposition.mk nouns adjectives), s)

/-- A random exercise with `size` variables. -/
def random {σ : Type} [Source σ] (size : Nat) (s : σ) : Except SizeError Exercise × σ :=
  match Formula.random size s with
  | (.error e, s) => (.error e, s)
  | (.ok f, s) =>
    let (m, s) := drawMeaning f.variableSet s
    (.ok { formula := f, prompt := English.sentence m f, meaning := m }, s)

/-- The exercise that a record describes, if its formula is one. -/
def ofRecord (r : Record) : Except SyntaxError Exercise :=
  (Formula.parse r.formula).map fun f => { formula := f, prompt := r.prompt, meaning := ∅ }

/-- The record of an exercise. -/
def toRecord (e : Exercise) : Record where
  prompt := e.prompt
  formula := toString e.formula

/-- Judges an answer.  Blanks in it do not count. -/
def judge (e : Exercise) (answer : String) : Verdict :=
  Sentential.judge e.formula (withoutBlanks answer)

end Exercise
end Sentential
