/-
# Newlines in one spelling

A text with its newlines in one spelling has no return (`Text.return_not_mem_unifyNewlines`),
so bringing it into that spelling again changes nothing.  What is written character by
character can be brought into it before or after (`Text.unifyNewlines_flatMap`), if neither a
return nor a newline is written in another way.  The fields of a text stay, if newlines separate
them (`Text.fields_unifyNewlines`).
-/

import DocHighlighter.Proofs.Html.Snippet
import DocHighlighter.Proofs.Text.Fields

namespace DocHighlighter
namespace Text

theorem unifyNewlines_cons {c : Char} (h : c ≠ '\r') (rest : List Char) :
    unifyNewlines (c :: rest) = c :: unifyNewlines rest := by
  rw [unifyNewlines]
  · exact fun _ he => absurd he h
  · exact fun he => absurd he h

theorem unifyNewlines_return {rest : List Char} (h : rest.head? ≠ some '\n') :
    unifyNewlines ('\r' :: rest) = '\n' :: unifyNewlines rest := by
  rw [unifyNewlines]
  rintro rest' rfl
  exact h rfl

/-- A text with unified newlines has the characters of the text, without returns. -/
theorem mem_of_mem_unifyNewlines {text : List Char} {c : Char} (h : c ∈ unifyNewlines text) :
    c ≠ '\r' ∧ (c ∈ text ∨ c = '\n') := by
  fun_induction unifyNewlines text with
  | case1 => exact absurd h List.not_mem_nil
  | case2 rest ih =>
    rcases List.mem_cons.1 h with rfl | h
    · exact ⟨by decide, .inr rfl⟩
    · obtain ⟨hreturn, hmem⟩ := ih h
      exact ⟨hreturn, hmem.imp_left fun hr => List.mem_cons_of_mem _ (List.mem_cons_of_mem _ hr)⟩
  | case3 rest _ ih =>
    rcases List.mem_cons.1 h with rfl | h
    · exact ⟨by decide, .inr rfl⟩
    · obtain ⟨hreturn, hmem⟩ := ih h
      exact ⟨hreturn, hmem.imp_left fun hr => List.mem_cons_of_mem _ hr⟩
  | case4 d rest _ hne ih =>
    rcases List.mem_cons.1 h with rfl | h
    · exact ⟨hne, .inl List.mem_cons_self⟩
    · obtain ⟨hreturn, hmem⟩ := ih h
      exact ⟨hreturn, hmem.imp_left fun hr => List.mem_cons_of_mem _ hr⟩

theorem return_not_mem_unifyNewlines (text : List Char) : '\r' ∉ unifyNewlines text :=
  fun h => (mem_of_mem_unifyNewlines h).1 rfl

/-- Newlines that are in one spelling stay. -/
theorem unifyNewlines_unifyNewlines (text : List Char) :
    unifyNewlines (unifyNewlines text) = unifyNewlines text :=
  unifyNewlines_of_not_mem (return_not_mem_unifyNewlines text)

theorem unifyNewlines_append_left {before : List Char} (h : '\r' ∉ before) (text : List Char) :
    unifyNewlines (before ++ text) = before ++ unifyNewlines text := by
  induction before with
  | nil => rfl
  | cons c before ih =>
    obtain ⟨hc, hbefore⟩ := not_or.1 fun h' => h (List.mem_cons.2 h')
    rw [List.cons_append, unifyNewlines_cons (Ne.symm hc), ih hbefore, List.cons_append]

/-- Two texts can be brought into one spelling one by one, unless a newline would go on a return. -/
theorem unifyNewlines_append (text : List Char) {rest : List Char} (h : rest.head? ≠ some '\n') :
    unifyNewlines (text ++ rest) = unifyNewlines text ++ unifyNewlines rest := by
  fun_induction unifyNewlines text with
  | case1 => rfl
  | case2 text ih => rw [List.cons_append, List.cons_append, unifyNewlines, ih, List.cons_append]
  | case3 text hnext ih =>
    have hhead : (text ++ rest).head? ≠ some '\n' := by
      cases text with
      | nil => exact h
      | cons c text =>
        intro he
        obtain rfl := Option.some.inj he
        exact hnext text rfl
    rw [List.cons_append, unifyNewlines_return hhead, ih, List.cons_append]
  | case4 c text _ hreturn ih =>
    rw [List.cons_append, unifyNewlines_cons hreturn, ih, List.cons_append]

/-- A text can be written character by character before or after its newlines are brought into one
spelling. -/
theorem unifyNewlines_flatMap {write : Char → List Char} (hreturn : write '\r' = ['\r'])
    (hnewline : write '\n' = ['\n'])
    (hother : ∀ c, c ≠ '\r' → c ≠ '\n' → '\r' ∉ write c ∧ (write c).head? ≠ some '\n' ∧
      write c ≠ []) (text : List Char) :
    unifyNewlines (text.flatMap write) = (unifyNewlines text).flatMap write := by
  have hplain : ∀ c, c ≠ '\r' → '\r' ∉ write c := by
    intro c hc
    by_cases hn : c = '\n'
    · rw [hn, hnewline]
      decide
    · exact (hother c hc hn).1
  fun_induction unifyNewlines text with
  | case1 => rfl
  | case2 rest ih =>
    rw [List.flatMap_cons, List.flatMap_cons, List.flatMap_cons, hreturn, hnewline]
    show unifyNewlines ('\r' :: '\n' :: rest.flatMap write) = _
    rw [unifyNewlines, ih]
    rfl
  | case3 rest hnext ih =>
    have hhead : (rest.flatMap write).head? ≠ some '\n' := by
      cases rest with
      | nil => simp
      | cons c rest =>
        rw [List.flatMap_cons]
        by_cases hc : c = '\r'
        · rw [hc, hreturn]
          simp
        · have hn : c ≠ '\n' := fun he => hnext rest (he ▸ rfl)
          obtain ⟨-, hfirst, hne⟩ := hother c hc hn
          rwa [List.head?_append_of_ne_nil _ hne]
    rw [List.flatMap_cons, List.flatMap_cons, hreturn, hnewline]
    show unifyNewlines ('\r' :: rest.flatMap write) = _
    rw [unifyNewlines_return hhead, ih]
    rfl
  | case4 c rest _ hc ih =>
    rw [List.flatMap_cons, List.flatMap_cons, unifyNewlines_append_left (hplain c hc), ih]

theorem unifyNewlines_escapeText (text : List Char) :
    unifyNewlines (escapeText text) = escapeText (unifyNewlines text) := by
  refine unifyNewlines_flatMap rfl rfl (fun c hreturn hnewline => ?_) text
  unfold escapeChar
  split
  · decide
  · decide
  · decide
  · exact ⟨by simpa using Ne.symm hreturn, by simpa using hnewline, by simp⟩

theorem runs_unifyNewlines {p : Char → Bool} (hreturn : p '\r' = true) (hnewline : p '\n' = true)
    (text : List Char) : fields.runs p (unifyNewlines text) = fields.runs p text := by
  fun_induction unifyNewlines text with
  | case1 => rfl
  | case2 rest ih =>
    have hfields : fields p (unifyNewlines rest) = fields p rest := congrArg fields.close ih
    have hnext : fields p ('\n' :: rest) = fields p rest := by
      show fields.close (fields.runs p ('\n' :: rest)) = _
      rw [fields.runs_cons, if_pos hnewline]
      rfl
    rw [fields.runs_cons, fields.runs_cons, if_pos hnewline, if_pos hreturn, hfields, hnext]
  | case3 rest _ ih =>
    have hfields : fields p (unifyNewlines rest) = fields p rest := congrArg fields.close ih
    rw [fields.runs_cons, fields.runs_cons, if_pos hnewline, if_pos hreturn, hfields]
  | case4 c rest _ _ ih =>
    have hfields : fields p (unifyNewlines rest) = fields p rest := congrArg fields.close ih
    rw [fields.runs_cons, fields.runs_cons, ih, hfields]

/-- Where newlines separate, their spelling makes no difference to the fields of a text. -/
theorem fields_unifyNewlines {p : Char → Bool} (hreturn : p '\r' = true)
    (hnewline : p '\n' = true) (text : List Char) :
    fields p (unifyNewlines text) = fields p text :=
  congrArg fields.close (runs_unifyNewlines hreturn hnewline text)

end Text

/-- A text is the same page in one spelling of its newlines. -/
theorem Html.Page.read_unifyNewlines (text : List Char) :
    Page.read (Text.unifyNewlines text) = Page.read text := by
  rw [Page.read, Page.read, Text.unifyNewlines_unifyNewlines]

end DocHighlighter
