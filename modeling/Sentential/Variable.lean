/-
# Propositional variables

The eleven letters that stand for sentences.  The list `Variable.all` fixes their order: it is
the order in which random formulas use them up.

* `ofChar?_name`: every letter is read back from its own name;
* `mem_all`: the list misses no letter.
-/
namespace Sentential

/-- A propositional variable. -/
inductive Variable where
  | p | q | r | s | t | u | v | w | x | y | z
deriving DecidableEq

namespace Variable

/-- Every variable, in alphabetical order. -/
def all : List Variable :=
  [.p, .q, .r, .s, .t, .u, .v, .w, .x, .y, .z]

/-- The letter that a variable is written with. -/
def name : Variable → Char
  | .p => 'p'
  | .q => 'q'
  | .r => 'r'
  | .s => 's'
  | .t => 't'
  | .u => 'u'
  | .v => 'v'
  | .w => 'w'
  | .x => 'x'
  | .y => 'y'
  | .z => 'z'

/-- The variable written with the letter `c`. -/
def ofChar? (c : Char) : Option Variable :=
  all.find? (fun a => a.name == c)

theorem mem_all (a : Variable) : a ∈ all := by
  cases a <;> decide

theorem nodup_all : all.Nodup := by
  decide

@[simp] theorem ofChar?_name (a : Variable) : ofChar? a.name = some a := by
  cases a <;> rfl

theorem ofChar?_eq_some_iff {c : Char} {a : Variable} : ofChar? c = some a ↔ a.name = c := by
  constructor
  · intro h
    simpa using List.find?_some h
  · rintro rfl
    exact ofChar?_name a

end Variable
end Sentential
