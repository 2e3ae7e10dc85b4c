/-
# Sampling without repetition

Draws different numbers below a bound, in a random order.  The numbers from `length - amount` up
are offered one after another: at `j` a number up to `j` is drawn and put at the end; where it
was in the list before, `j` takes its place.
-/
import Sentential.Random.Source

namespace Sentential
namespace Sample

variable {σ : Type} [Source σ]

/-- The list after the number `t` has been drawn at `j`. -/
def place (chosen : List Nat) (j t : Nat) : List Nat :=
  chosen.map (fun x => if x = t then j else x) ++ [t]

/-- Draws once for each of the `count` numbers from `j` up. -/
def drawFrom (j : Nat) (chosen : List Nat) : Nat → σ → List Nat × σ
  | 0, s => (chosen, s)
  | count + 1, s =>
    let (t, s) := Source.upTo j s
    drawFrom (j + 1) (place chosen j t.val) count s

/-- Draws `amount` different numbers below `length`. -/
def indices (length amount : Nat) (s : σ) : List Nat × σ :=
  drawFrom (length - amount) [] amount s

/-- Draws `amount` different places of a list, and gives what stands there. -/
def ofList {α : Type} (xs : List α) (amount : Nat) (s : σ) : List α × σ :=
  let (chosen, s) := indices xs.length amount s
  (chosen.filterMap (xs[·]?), s)

end Sample
end Sentential
