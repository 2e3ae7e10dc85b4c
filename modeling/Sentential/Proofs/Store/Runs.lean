/-
# Runs of a store

What is saved is loaded again, however often and in whatever order exercises are added and loaded.
A run keeps a log of the calls with their replies.  The calls alone say which exercises there are
to be (`Call.exercise?`), and after every prefix of a run that began with an empty store the place
holds exactly these (`Place.Holds.run`).

* `Place.exists_run_of_log`: every entry of a log is the reply of the place that the run had led
  to by then;
* `Place.run_loads_what_was_added`: what the replies of a run are.
-/
import Sentential.Proofs.Store

namespace Sentential

/-! ## 1. Calls and replies -/

/-- What is asked of a store. -/
inductive Call where
  | add (prompt formula : String)
  | load

/-- What a store replies. -/
inductive Reply where
  | added (outcome : Except StoreError Record)
  | loaded (outcome : Except StoreError (List Exercise))

/-- A call with the reply to it. -/
abbrev Entry : Type := Call × Reply

namespace Place

/-- The reply to a call, and the place afterwards. -/
def call (place : Place) : Call → Reply × Place
  | .add prompt formula =>
    match place.add prompt formula with
    | (outcome, after) => (.added outcome, after)
  | .load => (.loaded place.load, place)

/-- The log of some calls, and the place afterwards. -/
def run (place : Place) : List Call → List Entry × Place
  | [] => ([], place)
  | c :: calls =>
    match place.call c with
    | (reply, next) =>
      match next.run calls with
      | (log, after) => ((c, reply) :: log, after)

theorem run_cons (place : Place) (c : Call) (calls : List Call) :
    place.run (c :: calls) =
      ((c, (place.call c).1) :: ((place.call c).2.run calls).1, ((place.call c).2.run calls).2) :=
  rfl

/-- The log of a run has its calls in their order. -/
theorem map_fst_run (place : Place) (calls : List Call) :
    (place.run calls).1.map Prod.fst = calls := by
  induction calls generalizing place with
  | nil => rfl
  | cons c calls ih => rw [run_cons, List.map_cons, ih]

/-- **An entry of a log is what the calls before it have led to.** -/
theorem exists_run_of_log {place : Place} {calls : List Call} {before after : List Entry}
    {c : Call} {reply : Reply} (h : (place.run calls).1 = before ++ (c, reply) :: after) :
    ∃ earlier, (place.run earlier).1 = before ∧ ((place.run earlier).2.call c).1 = reply := by
  induction before generalizing place calls with
  | nil =>
    cases calls with
    | nil => cases h
    | cons d calls =>
      rw [run_cons, List.nil_append, List.cons.injEq, Prod.mk.injEq] at h
      obtain ⟨⟨rfl, hreply⟩, -⟩ := h
      exact ⟨[], rfl, hreply⟩
  | cons entry before ih =>
    cases calls with
    | nil => cases h
    | cons d calls =>
      rw [run_cons, List.cons_append, List.cons.injEq] at h
      obtain ⟨hentry, hlog⟩ := h
      obtain ⟨earlier, hbefore, hreply⟩ := ih hlog
      refine ⟨d :: earlier, ?_, hreply⟩
      rw [run_cons, hentry, hbefore]

end Place

/-! ## 2. What there is to be loaded -/

/-- The exercise that a call adds, if it adds one: the prompt without the blanks at its ends, and
the formula that the text without its blanks is. -/
def Call.exercise? : Call → Option Exercise
  | .add prompt text =>
    match Formula.parse (withoutBlanks text) with
    | .ok f => some { formula := f, prompt := trimBlanks prompt, meaning := ∅ }
    | .error _ => none
  | .load => none

/-- The record that a reply gives back, if it gives one. -/
def Reply.record? : Reply → Option Record
  | .added (.ok r) => some r
  | _ => none

/-- The exercises that the calls of a log add. -/
def exercisesOf (log : List Entry) : List Exercise := log.filterMap (·.1.exercise?)

/-- The records that the replies of a log give back. -/
def recordsOf (log : List Entry) : List Record := log.filterMap (·.2.record?)

theorem exercisesOf_cons (c : Call) (reply : Reply) (log : List Entry) :
    exercisesOf ((c, reply) :: log) = c.exercise?.toList ++ exercisesOf log := by
  rw [exercisesOf, List.filterMap_cons]
  cases c.exercise? <;> rfl

theorem recordsOf_cons (c : Call) (reply : Reply) (log : List Entry) :
    recordsOf ((c, reply) :: log) = reply.record?.toList ++ recordsOf log := by
  rw [recordsOf, List.filterMap_cons]
  cases reply.record? <;> rfl

/-- The reply is the right one to a call behind the log `before`: an add succeeds if its text is a
formula, and gives back the record of what was saved; a load gives every exercise that was added,
which is the one that its record describes. -/
def Reply.Fits (before : List Entry) (c : Call) (reply : Reply) : Prop :=
  match c with
  | .add prompt text =>
    match Formula.parse (withoutBlanks text) with
    | .ok _ => reply = .added (.ok ⟨trimBlanks prompt, withoutBlanks text⟩)
    | .error e => reply = .added (.error (.invalidFormula e))
  | .load =>
    reply = .loaded (.ok (exercisesOf before)) ∧
      (exercisesOf before).map Exercise.toRecord = recordsOf before

namespace Place

variable {place : Place} {es : List Exercise}

/-- **One call.**  The place then holds the exercise of the call too, if there is one, and the
reply gives back its record. -/
theorem Holds.call (h : place.Holds es) (c : Call) :
    (place.call c).2.Holds (es ++ c.exercise?.toList) ∧
      (place.call c).1.record? = c.exercise?.map Exercise.toRecord := by
  cases c with
  | add prompt text =>
    cases hf : Formula.parse (withoutBlanks text) with
    | ok f =>
      obtain ⟨after, hadd, hafter⟩ := h.add prompt hf
      obtain ⟨htext, -⟩ := Formula.parse_eq_ok_iff.mp hf
      simp only [Place.call, Call.exercise?, hadd, hf]
      refine ⟨hafter, ?_⟩
      rw [htext]
      rfl
    | error e =>
      simp only [Place.call, Call.exercise?, add_of_error place prompt hf, hf]
      refine ⟨?_, rfl⟩
      rw [Option.toList_none, List.append_nil]
      exact h
  | load =>
    refine ⟨?_, rfl⟩
    rw [Call.exercise?, Option.toList_none, List.append_nil]
    exact h

/-- **A run.**  The place then holds the exercises of all its calls too, and the replies give back
their records. -/
theorem Holds.run (h : place.Holds es) (calls : List Call) :
    (place.run calls).2.Holds (es ++ exercisesOf (place.run calls).1) ∧
      recordsOf (place.run calls).1 = (exercisesOf (place.run calls).1).map Exercise.toRecord := by
  induction calls generalizing place es with
  | nil =>
    refine ⟨?_, rfl⟩
    rw [Place.run, exercisesOf, List.filterMap_nil, List.append_nil]
    exact h
  | cons c calls ih =>
    obtain ⟨hcall, hreply⟩ := h.call c
    obtain ⟨hrun, hreplies⟩ := ih hcall
    rw [run_cons, exercisesOf_cons, recordsOf_cons]
    refine ⟨?_, ?_⟩
    · rwa [← List.append_assoc]
    · rw [hreply, hreplies, List.map_append, Option.toList_map]

/-- The reply of a place that holds what the log before has added. -/
theorem Holds.fits {before : List Entry} (h : place.Holds (exercisesOf before))
    (hrecords : recordsOf before = (exercisesOf before).map Exercise.toRecord) (c : Call) :
    (place.call c).1.Fits before c := by
  cases c with
  | add prompt text =>
    rw [Reply.Fits]
    cases hf : Formula.parse (withoutBlanks text) with
    | ok f =>
      obtain ⟨after, hadd, -⟩ := h.add prompt hf
      simp only [Place.call, hadd]
    | error e => simp only [Place.call, add_of_error place prompt hf]
  | load =>
    refine ⟨?_, hrecords.symm⟩
    rw [Place.call, h.load]

/-- **What is saved is loaded again.**  Whatever is called in a run that begins where there is no
file or an empty one, an add succeeds if its text is a formula, and a load gives the exercises that
have been added by then. -/
theorem run_loads_what_was_added {start : Place}
    (hstart : start = .absent ∨ start = .file ByteArray.empty) (calls : List Call) :
    (start.run calls).1.map Prod.fst = calls ∧
      ∀ before c reply after, (start.run calls).1 = before ++ (c, reply) :: after →
        reply.Fits before c := by
  have hempty : start.Holds [] := by
    rcases hstart with rfl | rfl
    · exact Holds.absent
    · exact Holds.empty
  refine ⟨start.map_fst_run calls, ?_⟩
  intro before c reply after hlog
  obtain ⟨earlier, rfl, rfl⟩ := exists_run_of_log hlog
  obtain ⟨hholds, hrecords⟩ := hempty.run earlier
  exact Holds.fits hholds hrecords c

/-- A sentence with a quotation in it is saved and loaded. -/
theorem loads_quoted_prompt :
    (Place.absent.run [.add " \"Hot\" tea\n" "(p & ~T)", .load]).1 =
      [(.add " \"Hot\" tea\n" "(p & ~T)", .added (.ok ⟨"\"Hot\" tea", "(p&~T)"⟩)),
        (.load, .loaded (.ok [{
          formula := .binary .conjunction (.atom (.variable .p))
            (.negation (.atom (.constant true))),
          prompt := "\"Hot\" tea",
          meaning := ∅ }]))] := by
  have hformula : withoutBlanks "(p & ~T)" = "(p&~T)" := by decide
  have hprompt : trimBlanks " \"Hot\" tea\n" = "\"Hot\" tea" := by decide
  have hf : Formula.parse "(p&~T)" = .ok (.binary .conjunction
      (.atom (.variable .p)) (.negation (.atom (.constant true)))) :=
    Formula.parse_eq_ok_iff.mpr (by decide)
  obtain ⟨-, hfits⟩ := run_loads_what_was_added (.inl rfl)
    [.add " \"Hot\" tea\n" "(p & ~T)", .load]
  obtain ⟨added, loaded, hlog⟩ : ∃ added loaded,
      (Place.absent.run [.add " \"Hot\" tea\n" "(p & ~T)", .load]).1 =
        [(.add " \"Hot\" tea\n" "(p & ~T)", added), (.load, loaded)] := ⟨_, _, rfl⟩
  rw [hlog] at hfits ⊢
  have hadded := hfits [] _ added [_] rfl
  obtain ⟨hloaded, -⟩ := hfits [_] _ loaded [] rfl
  simp only [Reply.Fits, hformula, hprompt, hf] at hadded
  simp only [exercisesOf, List.filterMap, Call.exercise?, hformula, hprompt, hf] at hloaded
  rw [hadded, hloaded]

end Place
end Sentential
