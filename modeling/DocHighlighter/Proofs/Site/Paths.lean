/-
# Paths as they are written

Reading a path drops what does not count, and adds nothing: the text of a path is what it was read
from, less empty names, the name `.` and their slashes (`Path.text_read_sublist`).
-/

import DocHighlighter.Proofs.Highlight.Pieces
import DocHighlighter.Site.Path
import Mathlib.Data.List.Flatten

namespace DocHighlighter
namespace Path

/-- The names that count among those between slashes. -/
def namesOf (text : List Char) : List String :=
  ((Text.splitAt '/' text).map String.ofList).filter fun name => name != "" && name != "."

theorem toList_intercalate_cons (name : String) (names : List String) :
    (String.intercalate "/" (name :: names)).toList =
      name.toList ++ names.flatMap fun n => '/' :: n.toList := by
  induction names generalizing name with
  | nil => simp
  | cons name' names ih =>
    rw [String.intercalate_cons_of_ne_nil (by simp), String.toList_append, String.toList_append, ih]
    simp

/-- Less names make less text. -/
theorem intercalate_sublist {names names' : List String} (h : names.Sublist names') :
    (String.intercalate "/" names).toList.Sublist (names'.flatMap fun n => '/' :: n.toList) := by
  cases names with
  | nil => simp
  | cons name names =>
    rw [toList_intercalate_cons]
    have hall := h.flatMap fun n : String => '/' :: n.toList
    rw [List.flatMap_cons] at hall
    exact (List.sublist_cons_self '/' _).trans hall

theorem intercalate_namesOf_sublist (text : List Char) :
    (String.intercalate "/" (namesOf text)).toList.Sublist text := by
  obtain ⟨first, pieces, hsplit, htext⟩ := Text.splitAt_join '/' text
  have hpieces : (pieces.map String.ofList).flatMap (fun n => '/' :: n.toList) =
      pieces.flatMap ('/' :: ·) := by
    simp [List.flatMap_map]
  have hnames : namesOf text = (String.ofList first :: pieces.map String.ofList).filter
      fun name => name != "" && name != "." := by
    rw [namesOf, hsplit, List.map_cons]
  have hkept : ((pieces.map String.ofList).filter fun name => name != "" && name != ".").Sublist
      (pieces.map String.ofList) := List.filter_sublist
  rw [hnames, List.filter_cons]
  conv => rhs; rw [htext, ← hpieces]
  split
  · rw [toList_intercalate_cons, String.toList_ofList]
    exact (hkept.flatMap _).append_left first
  · exact (intercalate_sublist hkept).trans (List.sublist_append_right _ _)

/-- A slash at the beginning makes no name. -/
theorem namesOf_slash (text : List Char) : namesOf ('/' :: text) = namesOf text := by
  obtain ⟨first, pieces, hsplit, hslash⟩ := Text.splitAt_cons '/' '/' text
  rw [namesOf, hslash, if_pos (beq_self_eq_true _), ← hsplit]
  rfl

/-- Where a path has no names, it was written with a name that does not count. -/
theorem head?_of_namesOf {text : List Char} (h : namesOf text = []) (hslash : text.head? ≠ some '/')
    (hne : text ≠ []) : text.head? = some '.' := by
  obtain ⟨first, pieces, hsplit, htext⟩ := Text.splitAt_join '/' text
  have hfirst : first ≠ [] := by
    rintro rfl
    cases pieces with
    | nil => exact hne htext
    | cons piece pieces => exact hslash (htext ▸ rfl)
  rw [namesOf, hsplit, List.map_cons, List.filter_cons] at h
  split at h
  · cases h
  · next hdrop =>
    have hdot : String.ofList first = "." := by
      simpa [String.ofList_eq_empty_iff, hfirst] using hdrop
    have hfirst' : first = ['.'] := by
      rw [← String.toList_ofList (l := first), hdot]
      rfl
    rw [htext, hfirst']
    rfl

theorem text_of_ne_here {start : PathStart} (h : start ≠ .here) (names : List String) :
    (⟨start, names⟩ : Path).text = start.text ++ String.intercalate "/" names := by
  cases start with
  | here => exact absurd rfl h
  | top => rfl
  | doubleTop => rfl

/-- **The text of a path is a part of what it was read from,** in order. -/
theorem text_read_sublist {s : String} (h : s ≠ "") : (read s).text.toList.Sublist s.toList := by
  have hread : read s = ⟨PathStart.read s.toList, namesOf s.toList⟩ := rfl
  have hslash : ∀ {text : List Char} {start : PathStart}, start.text = "/" →
      (start.text ++ String.intercalate "/" (namesOf ('/' :: text))).toList.Sublist
        ('/' :: text) := by
    intro text start hstart
    rw [hstart, namesOf_slash, String.toList_append]
    exact (intercalate_namesOf_sublist text).cons_cons '/'
  rw [hread]
  generalize hs : s.toList = written
  have hne : written ≠ [] := hs ▸ fun hnil => h (String.toList_eq_nil_iff.1 hnil)
  clear hs hread h
  unfold PathStart.read
  split
  · rw [text_of_ne_here (by decide)]
    exact hslash rfl
  · next rest _ =>
    rw [text_of_ne_here (by decide), namesOf_slash, namesOf_slash, String.toList_append]
    exact ((intercalate_namesOf_sublist rest).cons_cons '/').cons_cons '/'
  · rw [text_of_ne_here (by decide)]
    exact hslash rfl
  · next hother =>
    unfold Path.text
    split
    · next hnames =>
      have hdot := head?_of_namesOf hnames (fun hhead => ?_) hne
      · obtain ⟨rest, rfl⟩ := List.head?_eq_some_iff.1 hdot
        simp
      · obtain ⟨rest, rfl⟩ := List.head?_eq_some_iff.1 hhead
        exact hother rest rfl
    · rw [String.toList_append]
      exact intercalate_namesOf_sublist written

end Path
end DocHighlighter
