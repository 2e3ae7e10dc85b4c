/-
# Blank characters

Which characters count as blank, and the two ways this library takes them out of a text:
everywhere (`withoutBlanks`, for formulas somebody typed) and at both ends (`trimBlanks`, for
sentences).
-/
namespace Sentential

/-- The characters with the Unicode property `White_Space`. -/
def isBlank (c : Char) : Bool :=
  let n := c.toNat
  (0x09 ≤ n && n ≤ 0x0D) || n == 0x20 || n == 0x85 || n == 0xA0 || n == 0x1680 ||
    (0x2000 ≤ n && n ≤ 0x200A) || n == 0x2028 || n == 0x2029 || n == 0x202F || n == 0x205F ||
    n == 0x3000

/-- The text with every blank left out, wherever it stands. -/
def withoutBlanks (s : String) : String :=
  String.ofList (s.toList.filter (fun c => !isBlank c))

/-- The characters with the blanks at both ends left out. -/
def trimmed (s : List Char) : List Char :=
  ((s.dropWhile isBlank).reverse.dropWhile isBlank).reverse

/-- The text with the blanks at both ends left out. -/
def trimBlanks (s : String) : String :=
  String.ofList (trimmed s.toList)

end Sentential
