/-
# Canonical texts have no blanks

No letter and no token of a connective is blank, so the text of a formula has no blanks in it and
nothing is lost when blanks are left out.

* `Symbol.isBlank_of_mem_text`: what is written at a node;
* `Formula.isBlank_of_mem_text`: what is written for a formula;
* `Formula.withoutBlanks_toString`: it stays as it is when blanks are left out.
-/
import Sentential.Proofs.Formula.RoundTrip
import Sentential.Proofs.Text.Blank

namespace Sentential

theorem Variable.isBlank_name (letter : Variable) : isBlank letter.name = false := by
  cases letter <;> decide

theorem Atom.isBlank_name (a : Atom) : isBlank a.name = false := by
  rcases a with letter | b
  · exact letter.isBlank_name
  · cases b <;> decide

theorem BinaryConnective.isBlank_of_mem_token (op : BinaryConnective) :
    ∀ c ∈ op.token, isBlank c = false := by
  have htoken : op.token.all (fun c => !isBlank c) = true := by cases op <;> rfl
  simpa using htoken

theorem Symbol.isBlank_of_mem_text (s : Symbol) : ∀ c ∈ s.text, isBlank c = false := by
  rcases s with a | c
  · simpa [text] using a.isBlank_name
  · rcases c with _ | op
    · exact List.forall_mem_singleton.mpr rfl
    · exact op.isBlank_of_mem_token

namespace Formula

theorem isBlank_of_mem_text (f : Formula) : ∀ c ∈ f.text, isBlank c = false := by
  induction f with
  | atom a =>
    intro c hc
    obtain rfl := List.mem_singleton.mp hc
    exact a.isBlank_name
  | negation f ih => exact List.forall_mem_cons.mpr ⟨by decide, ih⟩
  | binary op l r ihl ihr =>
    have hparts := op.isBlank_of_mem_token
    have hopening : isBlank '(' = false := by decide
    have hclosing : isBlank ')' = false := by decide
    simp only [text, List.forall_mem_append, List.forall_mem_cons]
    exact ⟨⟨⟨⟨hopening, ihl⟩, hparts⟩, ihr⟩, hclosing, List.forall_mem_nil _⟩

theorem notMem_text_of_isBlank (f : Formula) {c : Char} (hc : isBlank c = true) : c ∉ f.text := by
  intro h
  rw [f.isBlank_of_mem_text c h] at hc
  cases hc

theorem withoutBlanks_toString (f : Formula) : withoutBlanks (toString f) = toString f := by
  refine withoutBlanks_eq_self ?_
  rw [toList_toString]
  exact f.isBlank_of_mem_text

end Formula
end Sentential
