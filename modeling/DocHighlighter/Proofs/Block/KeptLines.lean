/-
# The lines that a code block keeps

The lines of a fragment's code are joined, each with its newline, and then the white space at the end
of the whole is taken off.  That reaches over any number of lines, but not further than the last one
that is not blank: the lines before it stay as they are, it loses the white space at its own end, and
what comes after it is gone (`Text.splitAt_stripEnd_joined`).

| lines of the fragment | lines of the block |
|---|---|
| ` `, `a `, ` b `, ` `, none | ` `, `a `, ` b` |
| ` `, none | none |

Two fragments of one tag so make the same block exactly if the texts of their code differ in the white
space at the end only.
-/

import DocHighlighter.Block.Fragment
import DocHighlighter.Proofs.Highlight.Pieces
import Mathlib.Data.List.TakeWhile

namespace DocHighlighter

namespace Text

variable {p : Char → Bool}

/-- A text with nothing but white space. -/
def IsBlank (text : List Char) : Prop :=
  ∀ c ∈ text, isBlank c = true

/-- Lines, each with a newline behind it. -/
def joined (lines : List (List Char)) : List Char :=
  lines.flatMap (· ++ ['\n'])

theorem joined_append_cons (before : List (List Char)) (line : List Char)
    (after : List (List Char)) :
    joined (before ++ line :: after) = joined before ++ line ++ '\n' :: joined after := by
  simp [joined]

theorem IsBlank.joined {lines : List (List Char)} (h : ∀ line ∈ lines, IsBlank line) :
    IsBlank (joined lines) := by
  intro c hc
  obtain ⟨line, hline, hmem⟩ := List.mem_flatMap.1 hc
  rcases List.mem_append.1 hmem with hmem | hmem
  · exact h line hline c hmem
  · rw [List.mem_singleton.1 hmem]
    decide

/-! ## Taking a class off the end -/

theorem stripEnd_append_of_forall {rest : List Char} (h : ∀ c ∈ rest, p c = true)
    (text : List Char) : stripEnd p (text ++ rest) = stripEnd p text := by
  rw [stripEnd, stripEnd, List.reverse_append,
    List.dropWhile_append_of_pos fun c hc => h c (List.mem_reverse.1 hc)]

theorem stripEnd_append_of_exists {last : List Char} (h : ∃ c ∈ last, p c = false)
    (text : List Char) : stripEnd p (text ++ last) = text ++ stripEnd p last := by
  obtain ⟨c, hc, hp⟩ := h
  have hne : last.reverse.dropWhile p ≠ [] := fun hnil =>
    Bool.false_ne_true (hp.symm.trans (List.dropWhile_eq_nil_iff.1 hnil c (List.mem_reverse.2 hc)))
  rw [stripEnd, stripEnd, List.reverse_append, List.dropWhile_append,
    if_neg (by simpa using hne), List.reverse_append, List.reverse_reverse]

/-- What is taken off belongs to the class. -/
theorem exists_eq_stripEnd_append (p : Char → Bool) (text : List Char) :
    ∃ rest, text = stripEnd p text ++ rest ∧ ∀ c ∈ rest, p c = true := by
  refine ⟨(text.reverse.takeWhile p).reverse, ?_, fun c hc => ?_⟩
  · rw [stripEnd, ← List.reverse_append, List.takeWhile_append_dropWhile, List.reverse_reverse]
  · exact List.mem_takeWhile_imp (List.mem_reverse.1 hc)

/-- Texts have the same left if they are the same up to characters of the class at their ends. -/
theorem stripEnd_eq_iff {s t : List Char} : stripEnd p s = stripEnd p t ↔
    ∃ shared rest more, s = shared ++ rest ∧ t = shared ++ more ∧
      (∀ c ∈ rest, p c = true) ∧ ∀ c ∈ more, p c = true := by
  constructor
  · intro h
    obtain ⟨rest, hs, hrest⟩ := exists_eq_stripEnd_append p s
    obtain ⟨more, ht, hmore⟩ := exists_eq_stripEnd_append p t
    exact ⟨stripEnd p t, rest, more, h ▸ hs, ht, hrest, hmore⟩
  · rintro ⟨shared, rest, more, rfl, rfl, hrest, hmore⟩
    rw [stripEnd_append_of_forall hrest, stripEnd_append_of_forall hmore]

/-! ## Lines that are joined -/

theorem splitAt_joined_append {lines : List (List Char)} (h : ∀ line ∈ lines, '\n' ∉ line)
    (rest : List Char) : splitAt '\n' (joined lines ++ rest) = lines ++ splitAt '\n' rest := by
  induction lines with
  | nil => rfl
  | cons line lines ih =>
    obtain ⟨hline, hlines⟩ := List.forall_mem_cons.1 h
    obtain ⟨piece, pieces, hsplit, hnewline⟩ := splitAt_cons '\n' '\n' (joined lines ++ rest)
    have hjoined : joined (line :: lines) ++ rest = line ++ '\n' :: (joined lines ++ rest) := by
      simp [joined]
    rw [hjoined, splitAt_append hline, hnewline, if_pos (beq_self_eq_true _), ← hsplit, ih hlines,
      List.modifyHead_cons, List.append_nil, List.cons_append]

theorem splitAt_of_not_mem {separator : Char} {text : List Char} (h : separator ∉ text) :
    splitAt separator text = [text] := by
  have hsplit := splitAt_append h []
  rwa [List.append_nil, splitAt, List.modifyHead_cons, List.append_nil] at hsplit

/-- Lines that are not all blank have a last one that is not. -/
theorem exists_last_not_blank {lines : List (List Char)} (h : ∃ line ∈ lines, ¬ IsBlank line) :
    ∃ before last after, lines = before ++ last :: after ∧ ¬ IsBlank last ∧
      ∀ line ∈ after, IsBlank line := by
  classical
  obtain ⟨line, hline, hink⟩ := h
  have hsome : (lines.reverse.find? fun line => !decide (IsBlank line)).isSome :=
    List.find?_isSome.2 ⟨line, List.mem_reverse.2 hline, by simpa using hink⟩
  obtain ⟨last, hlast⟩ := Option.isSome_iff_exists.1 hsome
  obtain ⟨hink, after, before, hlines, hafter⟩ := List.find?_eq_some_iff_append.1 hlast
  refine ⟨before.reverse, last, after.reverse, ?_, by simpa using hink, fun line hline => ?_⟩
  · rw [← List.reverse_reverse lines, hlines]
    simp
  · simpa using hafter line (List.mem_reverse.1 hline)

/-- **Joined lines lose what comes after the last one that is not blank, and the white space at its
end.** -/
theorem splitAt_stripEnd_joined {before after : List (List Char)} {last : List Char}
    (hlines : ∀ line ∈ before ++ last :: after, '\n' ∉ line) (hlast : ¬ IsBlank last)
    (hafter : ∀ line ∈ after, IsBlank line) :
    splitAt '\n' (stripEnd isBlank (joined (before ++ last :: after))) =
      before ++ [stripEnd isBlank last] := by
  have hrest : IsBlank ('\n' :: joined after) :=
    List.forall_mem_cons.2 ⟨by decide, IsBlank.joined hafter⟩
  have hink : ∃ c ∈ last, isBlank c = false := by
    simpa [IsBlank] using hlast
  rw [joined_append_cons, stripEnd_append_of_forall hrest, stripEnd_append_of_exists hink,
    splitAt_joined_append fun line hline => hlines line (List.mem_append_left _ hline),
    splitAt_of_not_mem fun hmem => hlines last (by simp) (mem_of_mem_stripEnd hmem)]

end Text

namespace Fragment

open Text (IsBlank joined)

/-- The code of two fragments is the same up to white space at the end. -/
def AgreesToTheEnd (f g : Fragment) : Prop :=
  ∃ shared rest more, joined f.bodyLines = shared ++ rest ∧ joined g.bodyLines = shared ++ more ∧
    IsBlank rest ∧ IsBlank more

theorem body_eq_iff {f g : Fragment} : f.body = g.body ↔ f.AgreesToTheEnd g :=
  Text.stripEnd_eq_iff

/-- A fragment without ink has no code. -/
theorem body_eq_nil {f : Fragment} (h : ∀ line ∈ f.bodyLines, IsBlank line) : f.body = [] :=
  Text.stripEnd_append_of_forall (IsBlank.joined h) []

/-- **A classified fragment keeps its lines.**  Split at newlines, the code of the block is the lines
of the fragment up to the last one that is not blank, as they are but for the white space at the end of
that one; it is empty if all are blank.  Another fragment with the tag makes the same block exactly if
its code is the same up to white space at the end. -/
theorem classify_keepsLines {f : Fragment} {language : String}
    (htag : languages.lookup (String.ofList f.tag) = some language)
    (hlines : ∀ line ∈ f.bodyLines, '\n' ∉ line) :
    f.classify? = some ⟨language, f.body⟩ ∧
    ((∃ line ∈ f.bodyLines, ¬ IsBlank line) → ∃ before last after,
      f.bodyLines = before ++ last :: after ∧ ¬ IsBlank last ∧ (∀ line ∈ after, IsBlank line) ∧
        Text.splitAt '\n' f.body = before ++ [Text.stripEnd Text.isBlank last]) ∧
    ((∀ line ∈ f.bodyLines, IsBlank line) → f.body = []) ∧
    ∀ g : Fragment, g.tag = f.tag → (g.classify? = f.classify? ↔ g.AgreesToTheEnd f) := by
  have hblock : ∀ g : Fragment, g.tag = f.tag → g.classify? = some ⟨language, g.body⟩ := by
    intro g hg
    rw [classify?, hg, htag]
    rfl
  refine ⟨hblock f rfl, fun hink => ?_, body_eq_nil, fun g hg => ?_⟩
  · obtain ⟨before, last, after, hsplit, hlast, hafter⟩ := Text.exists_last_not_blank hink
    rw [hsplit] at hlines
    refine ⟨before, last, after, hsplit, hlast, hafter, ?_⟩
    rw [← Text.splitAt_stripEnd_joined hlines hlast hafter, ← hsplit]
    rfl
  · rw [hblock g hg, hblock f rfl, Option.some.injEq, CodeBlock.mk.injEq, ← body_eq_iff]
    exact and_iff_right rfl

/-- The block of a fragment with blank lines in front, between and behind, and with white space behind
its last word, is that of the same fragment without what is blank at the end. -/
theorem classify_keepsLines_blankBetween :
    let f : Fragment := ⟨["@idl", "", "  a \u00a0", " ", "b \u2003", " ", ""].map String.toList⟩
    let g : Fragment := ⟨["@idl", "", "  a \u00a0", " ", "b"].map String.toList⟩
    f.classify? = some ⟨"idl", "\n  a \u00a0\n \nb".toList⟩ ∧
    (∃ before last after, f.bodyLines = before ++ last :: after ∧ ¬ IsBlank last ∧
      (∀ line ∈ after, IsBlank line) ∧
        Text.splitAt '\n' f.body = before ++ [Text.stripEnd Text.isBlank last]) ∧
    g.classify? = f.classify? := by
  intro f g
  obtain ⟨hblock, hsplit, -, hsame⟩ := classify_keepsLines (f := f) (by rfl) (by decide)
  have hink : ∃ line ∈ f.bodyLines, ¬ IsBlank line :=
    ⟨['b', ' ', '\u2003'], by decide, fun h => absurd (h 'b' List.mem_cons_self) (by decide)⟩
  have hend : g.AgreesToTheEnd f :=
    ⟨"\n  a \u00a0\n \nb".toList, ['\n'], " \u2003\n \n\n".toList, by decide, by decide,
      by unfold IsBlank; decide, by unfold IsBlank; decide⟩
  exact ⟨hblock, hsplit hink, (hsame g rfl).2 hend⟩

end Fragment
end DocHighlighter
