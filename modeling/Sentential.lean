import Sentential.Answer
import Sentential.Command
import Sentential.Command.Arguments
import Sentential.Command.Invocation
import Sentential.Command.Palette
import Sentential.Command.Play
import Sentential.Command.Terminal
import Sentential.Connective
import Sentential.Connective.Leading
import Sentential.English
import Sentential.English.Vocabulary
import Sentential.Exercise
import Sentential.Formula
import Sentential.Formula.Drawing
import Sentential.Formula.Equivalent
import Sentential.Formula.Parse
import Sentential.Formula.Random
import Sentential.Formula.Reader
import Sentential.Formula.SyntaxError
import Sentential.Formula.Value
import Sentential.Formula.Variables
import Sentential.Json.Number
import Sentential.Json.Reading
import Sentential.Json.Skip
import Sentential.Json.Text
import Sentential.Main
import Sentential.Random.KeyStream
import Sentential.Random.Sample
import Sentential.Random.Source
import Sentential.Random.WordList
import Sentential.Record
import Sentential.Record.Line
import Sentential.Store
import Sentential.Text.Blank
import Sentential.Text.Lines
import Sentential.TruthTable
import Sentential.Valuation
import Sentential.Variable
import Sentential.Variable.Map
import Sentential.Variable.Set
import Sentential.Word
import Sentential.Proofs.Formula.Readability
import Sentential.Proofs.Formula.Reading
import Sentential.Proofs.Formula.RoundTrip
import Sentential.Proofs.Formula.Viability
import Sentential.Proofs.Variable.Zip
import Sentential.Proofs.Formula.Equivalence
import Sentential.Proofs.Json.RoundTrip
import Sentential.Proofs.Record
import Sentential.Proofs.Text.Lines
import Sentential.Proofs.Store
import Sentential.Proofs.Store.Runs
import Sentential.Proofs.Text.Blank
import Sentential.Proofs.Answer
import Sentential.Proofs.Formula.Shape
import Sentential.Proofs.Formula.Random
import Sentential.Proofs.Random.WordList
import Sentential.Proofs.Formula.Reach
import Sentential.Proofs.Json.Extension
import Sentential.Proofs.Record.Extension
import Sentential.Proofs.Store.OpenLine
import Sentential.Proofs.Formula.Nesting
import Sentential.Proofs.English.Phrase
import Sentential.Proofs.Random.Sample
import Sentential.Proofs.English.Meaning
import Sentential.Proofs.Store.Gaining
import Sentential.Proofs.Command.Turns
import Sentential.Proofs.Text.Bytes
import Sentential.Proofs.Command.Agreement
import Sentential.Proofs.Formula.Series
import Sentential.Proofs.Formula.Unbound
import Sentential.Proofs.Valuation.Counting
import Sentential.Proofs.TruthTable
import Sentential.Proofs.Formula.Replacement
import Sentential.Proofs.Store.Lines
import Sentential.Proofs.English.Quotes
import Sentential.Proofs.Exercise
import Sentential.Proofs.English.Ends
import Sentential.Proofs.Exercise.Saving
import Sentential.Proofs.Variable.Union
import Sentential.Proofs.Formula.Blank
import Sentential.Proofs.TruthTable.Printing
import Sentential.Proofs.Formula.Drawing
import Sentential.Proofs.Command.Session
import Sentential.Proofs.Command.Terminal
import Sentential.Proofs.Connective
import Sentential.Proofs.Formula.Balance
import Sentential.Proofs.Formula.Calls
