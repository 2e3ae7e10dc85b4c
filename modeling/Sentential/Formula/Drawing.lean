/-
# Drawing the syntax tree of a formula

One line for each node, the root first and every subtree below its parent.  A subtree is drawn on
its own and then hung: its first line gets a branch, the others get the rail that leads past them
to the next sibling, or blanks under the last one.
-/
import Sentential.Formula

namespace Sentential
namespace Formula

/-- What is written in front of the lines of a subtree: first in front of its root, then in front
of the other lines. -/
structure Hanger where
  branch : List Char
  rail : List Char

/-- Hangs a subtree that has a later sibling. -/
def Hanger.inner : Hanger :=
  ⟨['├', '─', '─', ' '], ['│', ' ', ' ', ' ']⟩

/-- Hangs the last subtree of a node. -/
def Hanger.last : Hanger :=
  ⟨['└', '─', '─', ' '], [' ', ' ', ' ', ' ']⟩

/-- The lines of a subtree, hung below its parent. -/
def Hanger.hang (h : Hanger) : List (List Char) → List (List Char)
  | [] => []
  | root :: others => (h.branch ++ root) :: others.map (h.rail ++ ·)

/-- The lines of the drawing. -/
def drawing : Formula → List (List Char)
  | atom a => [(Symbol.atom a).text]
  | negation f => (Symbol.connective .negation).text :: Hanger.last.hang f.drawing
  | binary op l r =>
    (Symbol.connective (.binary op)).text ::
      (Hanger.inner.hang l.drawing ++ Hanger.last.hang r.drawing)

/-- The drawing as it is printed, each line with its line feed. -/
def drawingText (f : Formula) : String :=
  String.ofList (f.drawing.flatMap (· ++ ['\n']))

/-- The symbols of a formula, each before those of its operands. -/
def symbols : Formula → List Symbol
  | atom a => [.atom a]
  | negation f => .connective .negation :: f.symbols
  | binary op l r => .connective (.binary op) :: (l.symbols ++ r.symbols)

end Formula
end Sentential
