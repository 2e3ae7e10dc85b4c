/-
# Why a text is not a formula

The six reasons, each with the text at which reading stopped.
-/
namespace Sentential

/-- The deepest nesting of negations and parentheses that is read. -/
def maxDepth : Nat := 256

/-- Why a text is not a formula.  The argument is the text from the place where reading
stopped. -/
inductive SyntaxError where
  | emptyInput
  | unknownToken (rest : String)
  | missingConnective (rest : String)
  | unclosedParenthesis (rest : String)
  | trailingCharacters (rest : String)
  | tooDeep (rest : String)
deriving DecidableEq

namespace SyntaxError

/-- The error at a place where a formula should begin. -/
def unexpected : List Char → SyntaxError
  | [] => .emptyInput
  | c :: cs => .unknownToken (String.ofList (c :: cs))

/-- The text that was not read. -/
def remainder : SyntaxError → String
  | .emptyInput => ""
  | .unknownToken rest
  | .missingConnective rest
  | .unclosedParenthesis rest
  | .trailingCharacters rest
  | .tooDeep rest => rest

/-- The error in words. -/
def message : SyntaxError → String
  | .emptyInput => "empty input"
  | .unknownToken rest => s!"unknown token at the beginning of \"{rest}\""
  | .missingConnective rest => s!"expected a binary connective at the beginning of \"{rest}\""
  | .unclosedParenthesis rest => s!"expected a closing parenthesis at the beginning of \"{rest}\""
  | .trailingCharacters rest => s!"trailing characters after a complete formula: \"{rest}\""
  | .tooDeep rest => s!"formula nested more than {maxDepth} levels deep at \"{rest}\""

@[simp] theorem remainder_unexpected (s : List Char) :
    (unexpected s).remainder = String.ofList s := by
  cases s <;> rfl

end SyntaxError
end Sentential
