/-
# What a printed truth table shows

A table is printed with one line that names its columns, a rule and one line for each valuation.
The cells of a row are printed in the order of its valuation and the names in the order in which the
variables occur.  Since a valuation binds the variables in that very order, each cell stands under
the name of its own variable: the cell at position `k` is the character with the number `4 * k + 2`
of its line.

Only spaces stand between the cells, and the text of a formula has none.  So the text of the formula
is what follows the last space of the first line, and its value is the last character of a row.

* `TruthTable.getElem?_line`: where the cells of a line stand;
* `TruthTable.Shows`: what the lines of a printed table are to be;
* `TruthTable.ofText_text`: printing is cut into the lines that were printed;
* `TruthTable.printed_table_shows_formula`: all together.
-/
import Sentential.Proofs.Formula.Blank
import Sentential.Proofs.Formula.Unbound
import Sentential.Proofs.TruthTable
import Sentential.Proofs.Valuation.Counting

namespace Sentential

/-! ## 1. The valuation with a number -/

namespace Valuation

variable {V : VariableSet} {v w : Valuation} {i : Nat}

/-- The valuation gives the variable at each position its digit of a number, the highest of the
digits to the first variable. -/
def Numbered (v : Valuation) (V : VariableSet) (i : Nat) : Prop :=
  ∀ k a, V.toList[k]? = some a → v.get? a = some (i.testBit (V.size - 1 - k))

theorem numbered_zip (V : VariableSet) (i : Nat) :
    Numbered (VariableMap.zip V (bits V.size i)) V i := by
  intro k a ha
  have hk : k < V.size := (List.getElem?_eq_some_iff.mp ha).1
  exact VariableMap.get?_zip ha (getElem?_bits hk i)

/-- The number decides the values of the variables. -/
theorem Numbered.get?_eq (hv : v.Numbered V i) (hw : w.Numbered V i) {a : Variable} (ha : a ∈ V) :
    v.get? a = w.get? a := by
  obtain ⟨k, hk⟩ := List.mem_iff_getElem?.mp ha
  rw [hv k a hk, hw k a hk]

end Valuation

theorem truthLetter_beq (b : Bool) : (truthLetter b == 'T') = b := by
  cases b <;> rfl

theorem isBlank_truthLetter (b : Bool) : isBlank (truthLetter b) = false := by
  cases b <;> decide

namespace TruthTable

variable {cells last : List Char} {k : Nat}

/-! ## 2. Lines -/

/-- One cell of a line, with the blanks around it and the bar behind it. -/
theorem getElem?_cells {rest : List Char} (hk : k < cells.length) :
    (cells.flatMap (fun c => [' ', c, ' ', '|']) ++ rest)[4 * k + 1]? = cells[k]? := by
  induction cells generalizing k with
  | nil => cases hk
  | cons c cells ih =>
    cases k with
    | zero => rfl
    | succ k =>
      have hplace : 4 * (k + 1) + 1 = 4 * k + 1 + 1 + 1 + 1 + 1 := by omega
      simp only [List.flatMap_cons, List.cons_append, List.nil_append, hplace,
        List.getElem?_cons_succ]
      exact ih (Nat.lt_of_succ_lt_succ hk)

/-- **Every cell has its place**, whatever stands in the other cells and at the end. -/
theorem getElem?_line (hk : k < cells.length) (last : List Char) :
    (line cells last)[4 * k + 2]? = cells[k]? := by
  rw [line, List.cons_append, List.getElem?_cons_succ]
  exact getElem?_cells hk

theorem spaced_line (hcells : ∀ c ∈ cells, isBlank c = false)
    (hlast : ∀ c ∈ last, isBlank c = false) : Spaced (line cells last) := by
  have hcell : ∀ c ∈ cells, Spaced [' ', c, ' ', '|'] := by
    intro c hc
    have hletter : isBlank c = true → c = ' ' := by simp [hcells c hc]
    have hbar : Spaced [' ', '|'] := .cons (fun _ => rfl) (.cons (by decide) (.of_forall nofun))
    exact .cons (fun _ => rfl) (.cons hletter hbar)
  refine Spaced.cons (by decide) (Spaced.append ?_ (.cons (fun _ => rfl) (.of_forall hlast)))
  intro d hd
  obtain ⟨c, hc, hdc⟩ := List.mem_flatMap.mp hd
  exact hcell c hc d hdc

/-- What stands in the last column is what follows the last space. -/
theorem openLine_line (hlast : ' ' ∉ last) (cells : List Char) :
    Lines.openLine ' ' (line cells last) = last := by
  rw [line]
  exact Lines.openLine_append_cons hlast _

theorem getLast?_line (cells : List Char) (c : Char) : (line cells [c]).getLast? = some c := by
  have hconcat : line cells [c] =
      '|' :: cells.flatMap (fun c => [' ', c, ' ', '|']) ++ [' '] ++ [c] := by
    simp [line]
  rw [hconcat, List.getLast?_concat]

/-! ## 3. Rows -/

/-- **A row shows the digits of its number**, in the order of the columns. -/
theorem rowLine_zip (V : VariableSet) (i : Nat) (b : Bool) :
    rowLine (VariableMap.zip V (bits V.size i), b) =
      line ((bits V.size i).map truthLetter) [truthLetter b] := by
  have hvalues : Valuation.values (VariableMap.zip V (bits V.size i)) = bits V.size i :=
    Valuation.values_zip (length_bits _ _)
  have hcells : (VariableMap.zip V (bits V.size i)).entries.map (fun e => truthLetter e.2) =
      (bits V.size i).map truthLetter := by
    conv_rhs => rw [← hvalues, Valuation.values, List.map_map]
    rfl
  rw [rowLine, hcells]

theorem line_bits (n i : Nat) (last : List Char) :
    line ((bits n i).map truthLetter) last =
      '|' :: ((List.range n).flatMap fun k =>
        [' ', truthLetter (i.testBit (n - 1 - k)), ' ', '|']) ++ ' ' :: last := by
  rw [line, bits, List.map_map, List.flatMap_map]
  rfl

theorem spaced_of_mem_lines {t : TruthTable} : ∀ l ∈ t.lines, Spaced l := by
  have hheader : Spaced t.header := by
    refine spaced_line ?_ t.formula.isBlank_of_mem_text
    exact List.forall_mem_map.mpr fun a _ => a.isBlank_name
  have hrule : Spaced (List.replicate t.header.length '-') := by
    refine .of_forall fun c hc => ?_
    rw [List.eq_of_mem_replicate hc]
    decide
  have hrows : ∀ row ∈ t.rows, Spaced (rowLine row) := by
    intro row _
    refine spaced_line (List.forall_mem_map.mpr fun e _ => isBlank_truthLetter e.2) ?_
    simpa using isBlank_truthLetter row.2
  rw [lines, List.forall_mem_cons, List.forall_mem_cons, List.forall_mem_map]
  exact ⟨hheader, hrule, hrows⟩

/-- **Printing a table loses none of its lines.** -/
theorem ofText_text (t : TruthTable) : Lines.ofText t.text.toList = t.lines := by
  rw [text, String.toList_ofList, Lines.ofText_joined spaced_of_mem_lines]

/-! ## 4. Reading a table -/

/-- The text behind the last space of the first line. -/
def shownFormula (lines : List (List Char)) : List Char := Lines.openLine ' ' (lines.headD [])

/-- Whether the last character is `T`, in each line below the rule. -/
def shownResults (lines : List (List Char)) : List Bool :=
  (lines.drop 2).map fun row => row.getLast? == some 'T'

theorem shownFormula_lines (t : TruthTable) : shownFormula t.lines = t.formula.text :=
  openLine_line (t.formula.notMem_text_of_isBlank (by decide)) _

theorem shownResults_lines (t : TruthTable) : shownResults t.lines = t.results := by
  have hrow : ∀ row ∈ t.rows, ((rowLine row).getLast? == some 'T') = row.2 := by
    intro row _
    rw [rowLine, getLast?_line, Option.some_beq_some, truthLetter_beq]
  show (t.rows.map rowLine).map _ = t.rows.map Prod.snd
  rw [List.map_map]
  exact List.map_congr_left hrow

/-! ## 5. What the lines are to be -/

/-- The lines of the printed table of a formula.  The first line names the columns, the second one
is a rule of the same width, and there is one more line for each number below `2 ^ n`, where `n` is
the number of the variables.  It shows the digits of the number, as truth values of the variables,
and the value that the formula has for these.  Each of the digits stands under the name of its
variable. -/
structure Shows (lines : List (List Char)) (f : Formula) : Prop where
  length : lines.length = 2 ^ f.variableSet.size + 2
  header : lines[0]? =
    some ('|' :: (f.variableSet.toList.flatMap fun a => [' ', a.name, ' ', '|']) ++ ' ' :: f.text)
  rule : lines[1]? = lines[0]?.map fun header => List.replicate header.length '-'
  row : ∀ i < 2 ^ f.variableSet.size, ∃ b, lines[i + 2]? =
      some ('|' :: ((List.range f.variableSet.size).flatMap fun k =>
        [' ', truthLetter (i.testBit (f.variableSet.size - 1 - k)), ' ', '|']) ++
          [' ', truthLetter b]) ∧
    (∃ v : Valuation, v.Numbered f.variableSet i) ∧
      ∀ v : Valuation, v.Numbered f.variableSet i → f.value v = .ok b
  column : ∀ k a, f.variableSet.toList[k]? = some a →
    (lines[0]?.bind fun header => header[4 * k + 2]?) = some a.name ∧
    ∀ i < 2 ^ f.variableSet.size, (lines[i + 2]?.bind fun row => row[4 * k + 2]?) =
      some (truthLetter (i.testBit (f.variableSet.size - 1 - k)))

variable {t : TruthTable} {f : Formula} {i : Nat}

/-- The value that the formula has in the row with a number. -/
def result (f : Formula) (i : Nat) : Bool :=
  f.truth (Valuation.total (VariableMap.zip f.variableSet (bits f.variableSet.size i)))

theorem value_eq_result {v : Valuation} (hv : v.Numbered f.variableSet i) :
    f.value v = .ok (result f i) := by
  have hzip := Valuation.numbered_zip f.variableSet i
  have hbinds : Valuation.Binds (VariableMap.zip f.variableSet (bits f.variableSet.size i))
      f.variableSet := by
    intro a ha
    obtain ⟨k, hk⟩ := List.mem_iff_getElem?.mp ha
    exact ⟨_, hzip k a hk⟩
  have hsame : f.value v = f.value (VariableMap.zip f.variableSet (bits f.variableSet.size i)) :=
    Formula.value_congr fun a ha => hv.get?_eq hzip ha
  rw [hsame, Formula.value_eq_truth_total hbinds, result]

theorem formula_eq_of_ofFormula (ht : ofFormula f = .ok t) : t.formula = f := by
  rw [ofFormula_eq, Except.ok.injEq] at ht
  rw [← ht]

/-- **The lines of a table**, from the names, the digits of the numbers and the results. -/
theorem lines_eq (ht : ofFormula f = .ok t) :
    t.lines = t.header :: List.replicate t.header.length '-' ::
      (List.range (2 ^ f.variableSet.size)).map fun i =>
        line ((bits f.variableSet.size i).map truthLetter) [truthLetter (result f i)] := by
  rw [ofFormula_eq, Except.ok.injEq] at ht
  subst ht
  simp only [lines, Valuation.all_eq, List.map_map, Function.comp_def, rowLine_zip]
  rfl

theorem header_eq (ht : ofFormula f = .ok t) :
    t.header = line (f.variableSet.toList.map Variable.name) f.text := by
  rw [ofFormula_eq, Except.ok.injEq] at ht
  subst ht
  rfl

theorem getElem?_lines_add_two (ht : ofFormula f = .ok t) (hi : i < 2 ^ f.variableSet.size) :
    t.lines[i + 2]? =
      some (line ((bits f.variableSet.size i).map truthLetter) [truthLetter (result f i)]) := by
  rw [lines_eq ht, List.getElem?_cons_succ, List.getElem?_cons_succ, List.getElem?_map,
    List.getElem?_range hi]
  rfl

/-- **What is printed is what is to be printed.** -/
theorem shows_lines (ht : ofFormula f = .ok t) : Shows t.lines f where
  length := by simp [lines_eq ht]
  header := by
    rw [lines_eq ht, header_eq ht, line, List.flatMap_map]
    rfl
  rule := by rw [lines_eq ht]; rfl
  row i hi := by
    refine ⟨result f i, ?_, ⟨_, Valuation.numbered_zip _ i⟩, fun v hv => value_eq_result hv⟩
    rw [getElem?_lines_add_two ht hi, line_bits]
  column k a ha := by
    have hk : k < f.variableSet.size := (List.getElem?_eq_some_iff.mp ha).1
    constructor
    · have hname : k < (f.variableSet.toList.map Variable.name).length := by
        rwa [List.length_map]
      have hcell := getElem?_line hname f.text
      rw [List.getElem?_map, ha] at hcell
      rw [lines_eq ht, header_eq ht]
      exact hcell
    · intro i hi
      have hdigit : k < ((bits f.variableSet.size i).map truthLetter).length := by
        rwa [List.length_map, length_bits]
      have hcell := getElem?_line hdigit [truthLetter (result f i)]
      rw [List.getElem?_map, getElem?_bits hk] at hcell
      rw [getElem?_lines_add_two ht hi]
      exact hcell

/-! ## 6. All together -/

/-- **The printed table is complete, aligned and correct.**  Every formula has a table, and the
lines that are printed are what they are to be.  The formula and its results can be read back from
them: no other formula has the same printed table. -/
theorem printed_table_shows_formula (f : Formula) :
    ∃ t, ofFormula f = .ok t ∧
      t.text.toList = (Lines.ofText t.text.toList).flatMap (· ++ ['\n']) ∧
      Shows (Lines.ofText t.text.toList) f ∧
      shownResults (Lines.ofText t.text.toList) = t.results ∧
      shownFormula (Lines.ofText t.text.toList) = f.text ∧
      (f.depth ≤ maxDepth →
        Formula.parse (String.ofList (shownFormula (Lines.ofText t.text.toList))) = .ok f) ∧
      ∀ (g : Formula) (u : TruthTable), ofFormula g = .ok u → u.text = t.text → g = f := by
  obtain ⟨t, ht⟩ : ∃ t, ofFormula f = .ok t := ⟨_, ofFormula_eq f⟩
  have hformula : shownFormula t.lines = f.text := by
    rw [shownFormula_lines, formula_eq_of_ofFormula ht]
  refine ⟨t, ht, ?_⟩
  rw [ofText_text]
  refine ⟨String.toList_ofList, shows_lines ht, shownResults_lines t, hformula, ?_, ?_⟩
  · intro hdepth
    rw [hformula]
    exact Formula.parse_toString hdepth
  · intro g u hu htext
    have hsame : g.text = f.text := by
      rw [← hformula, ← ofText_text, ← htext, ofText_text, shownFormula_lines,
        formula_eq_of_ofFormula hu]
    exact (Formula.text_append_inj (congrArg (· ++ []) hsame)).1

/-- The columns are in the order in which the letters are met, not in that of the alphabet. -/
theorem shows_letters_as_they_are_met :
    let f : Formula := .binary .disjunction (.atom (.variable .y))
      (.negation (.atom (.variable .x)))
    ∃ t, ofFormula f = .ok t ∧
      t.text = "| y | x | (y|~x)\n----------------\n" ++
        "| F | F | T\n| F | T | F\n| T | F | T\n| T | T | T\n" ∧
      Shows (Lines.ofText t.text.toList) f ∧
      shownResults (Lines.ofText t.text.toList) = [true, false, true, true] ∧
      Formula.parse (String.ofList (shownFormula (Lines.ofText t.text.toList))) = .ok f := by
  intro f
  obtain ⟨t, ht, -, hshows, hresults, -, hparse, -⟩ := printed_table_shows_formula f
  have htable : t = _ := Except.ok.inj (ht.symm.trans (ofFormula_eq f))
  refine ⟨t, ht, ?_, hshows, hresults.trans ?_, hparse (by decide)⟩
  · rw [htable]
    decide
  · rw [htable]
    decide

end TruthTable
end Sentential
