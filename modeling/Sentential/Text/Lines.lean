/-
# Lines

A text is cut at every line feed; one carriage return right before a line feed belongs to the
line end, and what follows the last line feed is a line too, unless it is empty.  The rule is the
same for characters and for bytes, so it is stated for any alphabet with two marked letters.

* `cut_append_of_not_mem`, `cut_append_cons`: letters that are appended go on with what follows the
  last line feed, up to the first line feed among them.
-/
namespace Sentential
namespace Lines

variable {α : Type} [DecidableEq α]

/-- Puts a letter in front of a text that has been cut into the pieces that a `stop` ends and
what follows the last `stop`. -/
def push (stop c : α) (r : List (List α) × List α) : List (List α) × List α :=
  if c = stop then ([] :: r.1, r.2)
  else
    match r.1 with
    | [] => ([], c :: r.2)
    | piece :: pieces => ((c :: piece) :: pieces, r.2)

/-- The pieces that a `stop` ends, without it, and what follows the last `stop`. -/
def cut (stop : α) (s : List α) : List (List α) × List α :=
  s.foldr (push stop) ([], [])

/-- The list without its last element, if that is `x`. -/
def dropFinal (x : α) (l : List α) : List α :=
  if l.getLast? = some x then l.dropLast else l

/-- The lines of a text whose line feed is `lf` and whose carriage return is `cr`.  A last line
that no line feed ends keeps its carriage return. -/
def split (lf cr : α) (s : List α) : List (List α) :=
  match cut lf s with
  | (ended, last) => ended.map (dropFinal cr) ++ if last.isEmpty then [] else [last]

/-- The lines of a text. -/
def ofText (s : List Char) : List (List Char) :=
  split '\n' '\r' s

/-- The lines of a byte stream. -/
def ofBytes (s : List UInt8) : List (List UInt8) :=
  split 10 13 s

variable {stop : α}

theorem cut_cons (stop c : α) (s : List α) : cut stop (c :: s) = push stop c (cut stop s) := rfl

/-- What the open piece ends with it still ends with when a letter is put in front. -/
theorem push_open (c : α) (pieces : List (List α)) (last t : List α) :
    push stop c (pieces, last ++ t) =
      ((push stop c (pieces, last)).1, (push stop c (pieces, last)).2 ++ t) := by
  unfold push
  split
  · rfl
  · cases pieces <;> rfl

/-- What is put in front goes no further than the first piece. -/
theorem push_ended (c : α) (pieces more : List (List α)) (last after : List α) :
    push stop c (pieces ++ last :: more, after) =
      ((push stop c (pieces, last)).1 ++ (push stop c (pieces, last)).2 :: more, after) := by
  unfold push
  split
  · rfl
  · cases pieces <;> rfl

/-- Letters other than `stop` belong to the open piece. -/
theorem cut_append_of_not_mem {t : List α} (h : stop ∉ t) (s : List α) :
    cut stop (s ++ t) = ((cut stop s).1, (cut stop s).2 ++ t) := by
  induction s with
  | nil =>
    induction t with
    | nil => rfl
    | cons c cs ih =>
      rw [List.mem_cons, not_or] at h
      rw [List.nil_append] at ih ⊢
      rw [cut_cons, ih h.2, push, if_neg (Ne.symm h.1)]
      rfl
  | cons c cs ih => rw [List.cons_append, cut_cons, cut_cons, ih, push_open]

/-- **A `stop` ends the open piece**, and what follows it is cut on its own. -/
theorem cut_append_cons (stop : α) (s t : List α) :
    cut stop (s ++ stop :: t) =
      ((cut stop s).1 ++ (cut stop s).2 :: (cut stop t).1, (cut stop t).2) := by
  induction s with
  | nil => rw [List.nil_append, cut_cons, push, if_pos rfl]; rfl
  | cons c cs ih => rw [List.cons_append, cut_cons, cut_cons, ih, push_ended]

theorem cut_append_stop (stop : α) (s : List α) :
    cut stop (s ++ [stop]) = ((cut stop s).1 ++ [(cut stop s).2], []) :=
  cut_append_cons stop s []

end Lines
end Sentential
