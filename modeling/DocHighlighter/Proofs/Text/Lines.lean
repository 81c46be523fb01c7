/-
# The lines of a text

`Text.lines` splits a text as it is read: its newlines in one spelling, its last line ended, each
line with its newline.  Preparing a text for scanning does that, and drops a byte order mark that the
text begins with (`Preparation.keepingLines_apply_eq`); so a line on its own loses a byte order
mark that it would keep inside of the text.
-/

import DocHighlighter.Lexer.Basic
import DocHighlighter.Proofs.Text.Newlines

namespace DocHighlighter

/-- A text without the byte order mark at its beginning. -/
def withoutMark : List Char → List Char
  | '\ufeff' :: rest => rest
  | text => text

theorem mem_of_mem_withoutMark {text : List Char} {c : Char} (h : c ∈ withoutMark text) :
    c ∈ text := by
  unfold withoutMark at h
  split at h
  · exact List.mem_cons_of_mem _ h
  · exact h

theorem getLast?_withoutMark {text : List Char} {c : Char} (h : text.getLast? ≠ some c) :
    (withoutMark text).getLast? ≠ some c := by
  unfold withoutMark
  split
  · next rest =>
    cases rest with
    | nil => simp
    | cons d rest => simpa using h
  · exact h

theorem withoutMark_cons {a : Char} (h : a ≠ '\ufeff') (rest : List Char) :
    withoutMark (a :: rest) = a :: rest := by
  rw [withoutMark]
  rintro rest' he
  exact h (List.cons.inj he).1

namespace Text

/-- A text with its last line ended. -/
def endLine (text : List Char) : List Char :=
  if text.getLast? = some '\n' then text else text ++ ['\n']

/-- The lines of a text, each with its newline. -/
def linesOf : List Char → List (List Char)
  | [] => []
  | a :: rest =>
    if a = '\n' then [a] :: linesOf rest
    else
      match linesOf rest with
      | [] => [[a]]
      | line :: lines => (a :: line) :: lines

/-- A text that ends in its only newline. -/
def IsLine (line : List Char) : Prop :=
  ∃ body, line = body ++ ['\n'] ∧ '\n' ∉ body

theorem getLast?_endLine (text : List Char) : (endLine text).getLast? = some '\n' := by
  rw [endLine]
  split
  · assumption
  · simp

theorem flatten_linesOf (text : List Char) : (linesOf text).flatten = text := by
  induction text with
  | nil => rfl
  | cons a rest ih =>
    rw [linesOf]
    split
    · rw [List.flatten_cons, ih, List.singleton_append]
    · split
      · next h =>
        rw [h] at ih
        rw [← ih]
        rfl
      · next line lines h =>
        rw [h, List.flatten_cons] at ih
        rw [List.flatten_cons, List.cons_append, ih]

/-- Lines of a text that is ended are ended. -/
theorem isLine_of_mem_linesOf {text : List Char} (h : ∀ a ∈ text.getLast?, a = '\n') :
    ∀ line ∈ linesOf text, IsLine line := by
  induction text with
  | nil => exact fun line hline => absurd hline List.not_mem_nil
  | cons a rest ih =>
    have hrest : ∀ b ∈ rest.getLast?, b = '\n' := by
      intro b hb
      refine h b ?_
      cases rest with
      | nil => cases hb
      | cons c rest => rwa [List.getLast?_cons_cons]
    rw [linesOf]
    split
    · next ha =>
      intro line hline
      rcases List.mem_cons.1 hline with rfl | hline
      · exact ⟨[], by rw [ha, List.nil_append], List.not_mem_nil⟩
      · exact ih hrest line hline
    · next ha =>
      split
      · next hnone =>
        -- Only the empty text has no lines, so the text would end in another character.
        have hnil := flatten_linesOf rest
        rw [hnone] at hnil
        obtain rfl : [] = rest := hnil
        exact absurd (h a rfl) ha
      · next first lines hlines =>
        rw [hlines] at ih
        intro line hline
        rcases List.mem_cons.1 hline with rfl | hline
        · obtain ⟨body, rfl, hbody⟩ := ih hrest first List.mem_cons_self
          refine ⟨a :: body, rfl, fun hmem => ?_⟩
          rcases List.mem_cons.1 hmem with he | hmem
          · exact ha he.symm
          · exact hbody hmem
        · exact ih hrest line (List.mem_cons_of_mem _ hline)

/-- The lines of a text as they are read: its newlines in one spelling, the last line ended. -/
def lines (text : List Char) : List (List Char) :=
  linesOf (endLine (unifyNewlines text))

theorem flatten_lines (text : List Char) :
    (lines text).flatten = endLine (unifyNewlines text) :=
  flatten_linesOf _

/-- There is a first line, even of the empty text. -/
theorem lines_ne_nil (text : List Char) : lines text ≠ [] := by
  intro h
  have hlast := getLast?_endLine (unifyNewlines text)
  rw [← flatten_lines, h] at hlast
  cases hlast

/-- The lines have the characters of the text and newlines, without returns. -/
theorem mem_of_mem_lines {text line : List Char} {a : Char} (hline : line ∈ lines text)
    (ha : a ∈ line) : a ≠ '\r' ∧ (a ∈ text ∨ a = '\n') := by
  have hmem : a ∈ endLine (unifyNewlines text) := by
    rw [← flatten_lines]
    exact List.mem_flatten_of_mem hline ha
  rw [endLine] at hmem
  split at hmem
  · exact mem_of_mem_unifyNewlines hmem
  · rcases List.mem_append.1 hmem with hmem | hmem
    · exact mem_of_mem_unifyNewlines hmem
    · obtain rfl := List.mem_singleton.1 hmem
      exact ⟨by decide, .inr rfl⟩

theorem isLine_of_mem_lines {text line : List Char} (h : line ∈ lines text) : IsLine line := by
  refine isLine_of_mem_linesOf (fun a ha => ?_) line h
  rw [getLast?_endLine] at ha
  exact (Option.some.inj ha).symm

theorem length_withoutMark_le (text : List Char) : (withoutMark text).length ≤ text.length := by
  unfold withoutMark
  split
  · exact Nat.le_succ _
  · exact Nat.le_refl _

theorem withoutMark_of_head? {text : List Char} (h : text.head? ≠ some '\ufeff') :
    withoutMark text = text := by
  cases text with
  | nil => rfl
  | cons a rest => exact withoutMark_cons (fun ha => h (congrArg some ha)) rest

theorem length_flatten_withoutMark_le (texts : List (List Char)) :
    (texts.map withoutMark).flatten.length ≤ texts.flatten.length := by
  induction texts with
  | nil => exact Nat.le_refl _
  | cons text texts ih =>
    rw [List.map_cons, List.flatten_cons, List.flatten_cons, List.length_append, List.length_append]
    exact Nat.add_le_add (length_withoutMark_le text) ih

/-- Texts that begin with no mark are those that are as long without it. -/
theorem unmarked_iff_length (texts : List (List Char)) :
    (∀ text ∈ texts, text.head? ≠ some '\ufeff') ↔
      (texts.map withoutMark).flatten.length = texts.flatten.length := by
  induction texts with
  | nil => simp
  | cons text texts ih =>
    have hle := length_withoutMark_le text
    have hrest := length_flatten_withoutMark_le texts
    have htext : text.head? ≠ some '\ufeff' ↔ (withoutMark text).length = text.length := by
      refine ⟨fun h => by rw [withoutMark_of_head? h], fun h hmark => ?_⟩
      obtain ⟨rest, rfl⟩ := List.head?_eq_some_iff.1 hmark
      exact absurd h (Nat.ne_of_lt (Nat.lt_succ_self _))
    rw [List.forall_mem_cons, ih, htext, List.map_cons, List.flatten_cons, List.flatten_cons,
      List.length_append, List.length_append]
    omega

/-- A line without its mark is a line. -/
theorem IsLine.withoutMark {line : List Char} (h : IsLine line) : IsLine (withoutMark line) := by
  obtain ⟨body, rfl, hbody⟩ := h
  cases body with
  | nil => exact ⟨[], rfl, hbody⟩
  | cons a body =>
    by_cases ha : a = '\ufeff'
    · exact ⟨body, by rw [ha]; rfl, fun hmem => hbody (List.mem_cons_of_mem _ hmem)⟩
    · exact ⟨a :: body, withoutMark_cons ha _, hbody⟩

/-- Only the mark of the first of some lines is dropped. -/
theorem withoutMark_append {line : List Char} (h : IsLine line) (rest : List Char) :
    withoutMark (line ++ rest) = withoutMark line ++ rest := by
  obtain ⟨a, more, rfl⟩ : ∃ a more, line = a :: more := by
    obtain ⟨body, rfl, -⟩ := h
    exact List.exists_cons_of_ne_nil (by simp)
  by_cases ha : a = '\ufeff'
  · rw [ha]
    rfl
  · rw [List.cons_append, withoutMark_cons ha, withoutMark_cons ha, List.cons_append]

/-- A line is what stands before its newline, with it. -/
theorem IsLine.takeWhile_append {line : List Char} (h : IsLine line) :
    line.takeWhile (· != '\n') ++ ['\n'] = line := by
  obtain ⟨body, rfl, hbody⟩ := h
  rw [List.takeWhile_append_of_pos, List.takeWhile_cons_of_neg (by decide), List.append_nil]
  intro a ha
  rw [bne_iff_ne]
  rintro rfl
  exact hbody ha

end Text

open Text (linesOf endLine unifyNewlines IsLine)

theorem Text.endLine_of_getLast? {text : List Char} (h : text.getLast? = some '\n') :
    endLine text = text :=
  if_pos h

/-- A text is prepared by dropping a byte order mark and ending its last line. -/
theorem Preparation.keepingLines_apply (text : List Char) :
    Preparation.keepingLines.apply text = endLine (unifyNewlines (withoutMark text)) := by
  have happly : Preparation.keepingLines.apply text =
      if (unifyNewlines (withoutMark text)).getLast? != some '\n' then
        unifyNewlines (withoutMark text) ++ ['\n']
      else unifyNewlines (withoutMark text) := rfl
  rw [happly, endLine]
  by_cases hlast : (unifyNewlines (withoutMark text)).getLast? = some '\n' <;> simp [hlast]

/-- The mark may be dropped when the text is in lines. -/
theorem Preparation.keepingLines_apply_eq (text : List Char) :
    Preparation.keepingLines.apply text = withoutMark (endLine (unifyNewlines text)) := by
  rw [keepingLines_apply]
  cases text with
  | nil => rfl
  | cons a rest =>
    by_cases hmark : a = '\ufeff'
    · rw [hmark, Text.unifyNewlines_cons (by decide)]
      show endLine (unifyNewlines rest) = withoutMark (endLine ('\ufeff' :: unifyNewlines rest))
      cases unifyNewlines rest with
      | nil => rfl
      | cons b more =>
        rw [endLine, endLine, List.getLast?_cons_cons]
        split <;> rfl
    · rw [withoutMark_cons hmark]
      have hhead : ∀ b ∈ (unifyNewlines (a :: rest)).head?, b ≠ '\ufeff' := by
        intro b hb
        by_cases hreturn : a = '\r'
        · subst hreturn
          by_cases hnext : rest.head? = some '\n'
          · obtain ⟨more, rfl⟩ := List.head?_eq_some_iff.1 hnext
            rw [unifyNewlines] at hb
            obtain rfl := Option.some.inj hb
            decide
          · rw [Text.unifyNewlines_return hnext] at hb
            obtain rfl := Option.some.inj hb
            decide
        · rw [Text.unifyNewlines_cons hreturn] at hb
          obtain rfl := Option.some.inj hb
          exact hmark
      cases htext : unifyNewlines (a :: rest) with
      | nil => rfl
      | cons b more =>
        rw [htext] at hhead
        rw [endLine]
        split
        · exact (withoutMark_cons (hhead b rfl) _).symm
        · exact (withoutMark_cons (hhead b rfl) _).symm

/-- A line on its own is prepared by dropping a byte order mark. -/
theorem Preparation.keepingLines_apply_line {line : List Char} (h : IsLine line)
    (hreturn : '\r' ∉ line) : Preparation.keepingLines.apply line = withoutMark line := by
  obtain ⟨body, rfl, -⟩ := h
  rw [keepingLines_apply_eq, Text.unifyNewlines_of_not_mem hreturn,
    Text.endLine_of_getLast? (by simp)]

end DocHighlighter
