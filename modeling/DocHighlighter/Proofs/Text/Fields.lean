/-
# The fields of a text

`Text.fields` reads a text from its end: it has a run that is still being read and the
runs that have ended (`Text.fields.runs`).  The fields have the characters of the text
without the separators (`Text.mem_of_mem_fields`).

A separator splits a text in two (`Text.fields_append`).

Two classes of separators, one in the other, split a text twice: what the wide class
leaves is what it leaves of the fields of the narrow one (`Text.fields_eq_flatMap`).
-/

import DocHighlighter.Text.Lines

namespace DocHighlighter
namespace Text

theorem mem_of_mem_close {run : List Char} {runs : List (List Char)} {piece : List Char}
    (h : piece ∈ fields.close (run, runs)) : piece = run ∨ piece ∈ runs := by
  cases run with
  | nil => exact .inr h
  | cons c run => exact List.mem_cons.1 h

/-- The run that is being read, and those that have ended. -/
def fields.runs (p : Char → Bool) (text : List Char) : List Char × List (List Char) :=
  text.foldr (fun c acc => if p c then ([], fields.close acc) else (c :: acc.1, acc.2)) ([], [])

theorem mem_of_mem_runs {p : Char → Bool} {text run : List Char}
    (h : run = (fields.runs p text).1 ∨ run ∈ (fields.runs p text).2) :
    ∀ c ∈ run, c ∈ text ∧ p c = false := by
  induction text generalizing run with
  | nil =>
    rcases h with rfl | h
    · exact List.forall_mem_nil _
    · exact absurd h List.not_mem_nil
  | cons d rest ih =>
    intro c hc
    have hlater : (c ∈ rest ∧ p c = false) → c ∈ d :: rest ∧ p c = false :=
      fun hr => ⟨List.mem_cons_of_mem _ hr.1, hr.2⟩
    rw [fields.runs, List.foldr_cons, ← fields.runs] at h
    split at h
    · rcases h with rfl | h
      · exact absurd hc List.not_mem_nil
      · exact hlater (ih (mem_of_mem_close h) c hc)
    · next hp =>
      rcases h with rfl | h
      · rcases List.mem_cons.1 hc with rfl | hc
        · exact ⟨List.mem_cons_self, by simpa using hp⟩
        · exact hlater (ih (.inl rfl) c hc)
      · exact hlater (ih (.inr h) c hc)

/-- The fields of a text have its characters, without those that separate them. -/
theorem mem_of_mem_fields {p : Char → Bool} {text field : List Char}
    (h : field ∈ fields p text) : ∀ c ∈ field, c ∈ text ∧ p c = false :=
  mem_of_mem_runs (mem_of_mem_close h)

theorem fields.runs_cons (p : Char → Bool) (c : Char) (rest : List Char) :
    fields.runs p (c :: rest) = if p c then ([], fields p rest)
      else (c :: (fields.runs p rest).1, (fields.runs p rest).2) :=
  rfl

theorem ne_nil_of_mem_close {run : List Char} {runs : List (List Char)}
    (hruns : ∀ r ∈ runs, r ≠ []) {piece : List Char} (h : piece ∈ fields.close (run, runs)) :
    piece ≠ [] := by
  cases run with
  | nil => exact hruns piece h
  | cons c run =>
    rcases List.mem_cons.1 h with rfl | h
    · exact List.cons_ne_nil c run
    · exact hruns piece h

/-- Fields are not empty. -/
theorem ne_nil_of_mem_fields {p : Char → Bool} {text field : List Char}
    (h : field ∈ fields p text) : field ≠ [] := by
  have hruns : ∀ run ∈ (fields.runs p text).2, run ≠ [] := by
    clear h
    induction text with
    | nil => exact List.forall_mem_nil _
    | cons c rest ih =>
      rw [fields.runs_cons]
      split
      · exact fun run hrun => ne_nil_of_mem_close ih hrun
      · exact ih
  exact ne_nil_of_mem_close hruns h

theorem runs_of_forall_not {p : Char → Bool} {text : List Char} (h : ∀ c ∈ text, p c = false) :
    fields.runs p text = (text, []) := by
  induction text with
  | nil => rfl
  | cons c rest ih =>
    rw [fields.runs_cons, h c List.mem_cons_self, ih fun d hd => h d (List.mem_cons_of_mem _ hd)]
    rfl

/-- A text without separators is its own field. -/
theorem fields_of_forall_not {p : Char → Bool} {text : List Char} (hne : text ≠ [])
    (h : ∀ c ∈ text, p c = false) : fields p text = [text] := by
  obtain ⟨c, rest, rfl⟩ := List.exists_cons_of_ne_nil hne
  exact congrArg fields.close (runs_of_forall_not h)

theorem close_append (run : List Char) (runs more : List (List Char)) :
    fields.close (run, runs ++ more) = fields.close (run, runs) ++ more := by
  cases run with
  | nil => rfl
  | cons c run => rfl

theorem flatMap_close (p : Char → Bool) (acc : List Char × List (List Char)) :
    (fields.close acc).flatMap (fields p) = fields p acc.1 ++ acc.2.flatMap (fields p) := by
  obtain ⟨run, runs⟩ := acc
  cases run with
  | nil => rfl
  | cons c run => rfl

theorem fields_of_runs {p : Char → Bool} {text run : List Char} {more : List (List Char)}
    (h : fields.runs p text = ((fields.runs p run).1, (fields.runs p run).2 ++ more)) :
    fields p text = fields p run ++ more := by
  calc fields p text = fields.close (fields.runs p text) := rfl
    _ = fields p run ++ more := by rw [h, close_append]; rfl

/-- A separator between two texts splits them. -/
theorem fields_append {p : Char → Bool} {c : Char} (hc : p c = true) (text rest : List Char) :
    fields p (text ++ c :: rest) = fields p text ++ fields p rest := by
  refine fields_of_runs ?_
  induction text with
  | nil => rw [List.nil_append, fields.runs_cons, if_pos hc]; rfl
  | cons d text ih =>
    rw [List.cons_append, fields.runs_cons, fields.runs_cons, fields_of_runs ih, ih]
    split <;> rfl

section Narrow

variable {wide narrow : Char → Bool} (h : ∀ c, narrow c = true → wide c = true)
include h

/-- The run that the narrow class leaves open is split by the wide one, and so are those that have
ended. -/
theorem runs_of_narrow (text : List Char) :
    fields.runs wide text = ((fields.runs wide (fields.runs narrow text).1).1,
      (fields.runs wide (fields.runs narrow text).1).2 ++
        (fields.runs narrow text).2.flatMap (fields wide)) := by
  induction text with
  | nil => rfl
  | cons c rest ih =>
    have hrest := fields_of_runs ih
    rw [fields.runs_cons wide, fields.runs_cons narrow]
    cases hnarrow : narrow c with
    | true =>
      have hwide := h c hnarrow
      simp only [hwide, if_true, fields, flatMap_close]
      exact congrArg _ hrest
    | false =>
      cases hwide : wide c with
      | true => simp [fields.runs_cons, hwide, hrest]
      | false => simp [fields.runs_cons, hwide, ih]

/-- **What a wide class of separators leaves of a text** is what it leaves of the fields that a
narrow one does. -/
theorem fields_eq_flatMap (text : List Char) :
    fields wide text = (fields narrow text).flatMap (fields wide) := by
  calc fields wide text
    _ = fields wide (fields.runs narrow text).1 ++
          (fields.runs narrow text).2.flatMap (fields wide) :=
        fields_of_runs (runs_of_narrow h text)
    _ = (fields narrow text).flatMap (fields wide) := (flatMap_close ..).symm

end Narrow

end Text
end DocHighlighter
