/-
# Patterns of words, and others that are built

A scanner table has patterns that no one has written: any one character, a run of
characters of a class, one of some words.

Trying words in their order (`tryOrder`) tries just these words (`mem_tryOrder`), and a word before
all its beginnings (`pairwise_tryOrder`): so of the words that lie at one place of a text the
longest is tried first.  A whole word takes a character or more, if none of the words is empty
(`Expr.wholeWord_takes`).

A pattern that never matches the empty text (`Pattern.NeverEmpty`) moves the scanner on each time it
matches.
-/

import DocHighlighter.Pattern.Words
import DocHighlighter.Proofs.Pattern.Advance
import Mathlib.Data.List.Infix

namespace DocHighlighter
namespace Pattern

open Text (Cursor)

/-! ## The order of words -/

theorem mem_inOrder {words : List (List Char)} {w : List Char} : w ∈ inOrder words ↔ w ∈ words :=
  List.mem_mergeSort

/-- What is left of a word without the beginning in common makes the word again with it. -/
theorem commonStart_append_drop {words : List (List Char)} {w : List Char} (h : w ∈ words) :
    commonStart words ++ w.drop (commonStart words).length = w :=
  List.prefix_iff_eq_append.1 (isPrefix_commonStart h)

theorem take_append_commonEnd {words : List (List Char)} {w : List Char} (h : w ∈ words) :
    w.take (w.length - (commonEnd words).length) ++ commonEnd words = w :=
  List.suffix_iff_eq_append.1 (isSuffix_commonEnd h)

/-- **Just the words are tried.** -/
theorem mem_tryOrder (words : List (List Char)) : ∀ w, w ∈ tryOrder words ↔ w ∈ words := by
  fun_induction tryOrder words with
  | case1 => exact fun _ => Iff.rfl
  | case2 => exact fun _ => Iff.rfl
  | case3 first second more words hempty ih =>
    intro w
    rw [List.mem_append, ih, List.mem_filter, List.mem_singleton]
    cases w with
    | nil => exact iff_of_true (.inr rfl) hempty
    | cons a w => simp [words]
  | case4 first second more words letters hempty hletters ih =>
    intro w
    rw [List.mem_append, ih, List.mem_filter, List.mem_filter, ← and_or_left]
    exact and_iff_left (by by_cases h : w.length = 1 <;> simp [h])
  | case5 first second more words letters start hempty hletters hstart ih =>
    intro w
    rw [List.mem_map]
    constructor
    · rintro ⟨rest, hrest, rfl⟩
      obtain ⟨v, hv, rfl⟩ := List.mem_map.1 ((ih _).1 hrest)
      exact (commonStart_append_drop hv).symm ▸ hv
    · exact fun hw => ⟨_, (ih _).2 (List.mem_map_of_mem hw), commonStart_append_drop hw⟩
  | case6 first second more words letters start stop hempty hletters hstart hstop ih =>
    intro w
    rw [List.mem_map]
    constructor
    · rintro ⟨rest, hrest, rfl⟩
      obtain ⟨v, hv, rfl⟩ := List.mem_map.1 (mem_inOrder.1 ((ih _).1 hrest))
      exact (take_append_commonEnd hv).symm ▸ hv
    · exact fun hw =>
        ⟨_, (ih _).2 (mem_inOrder.2 (List.mem_map_of_mem hw)), take_append_commonEnd hw⟩
  | case7 first second more words letters start stop hempty hletters hstart hstop ih ih' =>
    intro w
    rw [List.mem_append, ih, ih', List.mem_filter, List.mem_filter, ← and_or_left]
    exact and_iff_left (by by_cases h : w.head? = first.head? <;> simp [h])

/-- **A word is tried before its own beginnings.** -/
theorem pairwise_tryOrder (words : List (List Char)) :
    (tryOrder words).Pairwise fun u v => u <+: v → u = v := by
  fun_induction tryOrder words with
  | case1 => exact .nil
  | case2 w => exact List.pairwise_singleton _ w
  | case3 first second more words hempty ih =>
    refine List.pairwise_append.2 ⟨ih, List.pairwise_singleton _ _, fun u _ v hv hbegins => ?_⟩
    obtain rfl := List.mem_singleton.1 hv
    exact List.prefix_nil.1 hbegins
  | case4 first second more words letters hempty hletters ih =>
    refine List.pairwise_append.2 ⟨ih, ?_, fun u hu v hv hbegins => ?_⟩
    · refine List.pairwise_of_forall_mem_list fun u hu v hv hbegins => ?_
      have hu' : u.length = 1 := by simpa using (List.mem_filter.1 hu).2
      have hv' : v.length = 1 := by simpa using (List.mem_filter.1 hv).2
      exact hbegins.eq_of_length (hu'.trans hv'.symm)
    · obtain ⟨hmem, hlong⟩ := List.mem_filter.1 ((mem_tryOrder _ _).1 hu)
      have hv' : v.length = 1 := by simpa using (List.mem_filter.1 hv).2
      have hle := hbegins.length_le
      have hpos : 0 < u.length := List.length_pos_iff.2 fun hnil => hempty (hnil ▸ hmem)
      exact absurd (by omega : u.length = 1) (by simpa using hlong)
  | case5 first second more words letters start hempty hletters hstart ih =>
    refine List.pairwise_map.2 (ih.imp fun {u v} h hbegins => ?_)
    rw [h ((List.prefix_append_right_inj start).1 hbegins)]
  | case6 first second more words letters start stop hempty hletters hstart hstop ih =>
    refine List.pairwise_map.2 (ih.imp fun {u v} h hbegins => ?_)
    have hle : u.length ≤ v.length := by
      have hlength := hbegins.length_le
      rw [List.length_append, List.length_append] at hlength
      omega
    have hu : u <+: v ++ stop := (List.prefix_append u stop).trans hbegins
    rw [h (List.prefix_of_prefix_length_le hu (List.prefix_append v stop) hle)]
  | case7 first second more words letters start stop hempty hletters hstart hstop ih ih' =>
    refine List.pairwise_append.2 ⟨ih, ih', fun u hu v hv hbegins => ?_⟩
    obtain ⟨hmem, hhead⟩ := List.mem_filter.1 ((mem_tryOrder _ _).1 hu)
    have hother := (List.mem_filter.1 ((mem_tryOrder _ _).1 hv)).2
    obtain ⟨more', rfl⟩ := hbegins
    have hne : u ≠ [] := fun hnil => hempty (hnil ▸ hmem)
    rw [List.head?_append_of_ne_nil _ hne, beq_iff_eq.1 hhead] at hother
    simp at hother

/-! ## Patterns that take a character -/

/-- No match of the pattern is empty, at any place of any text. -/
def NeverEmpty (p : Pattern) : Prop :=
  ∀ c m, p.matchAt? c = some m → m.stop ≠ c

theorem neverEmpty_of_takes {p : Pattern} (h : Turn.Takes 1 (p.expr.run p.flags)) :
    p.NeverEmpty := by
  intro c m hm he
  obtain ⟨d, g, -, hp, hk⟩ := h c [] accept m hm
  obtain rfl := Option.some.inj hk
  obtain rfl : d = c := he
  omega

/-- A pattern whose least width is not zero never matches the empty text. -/
theorem neverEmpty_of_least {e : Expr} (f : Flags) (h : e.least ≠ 0) :
    (⟨e, f⟩ : Pattern).NeverEmpty :=
  neverEmpty_of_takes ((e.run_takes_least f).mono (Nat.pos_of_ne_zero h))

namespace Expr

theorem seqAll_takes (f : Flags) {n : Nat} {e : Expr} (es : List Expr)
    (h : Turn.Takes n (e.run f)) : Turn.Takes n ((seqAll (e :: es)).run f) := by
  cases es with
  | nil => exact h
  | cons e' es => exact h.seq (run_takes (seqAll (e' :: es)) f)

theorem text_takes (f : Flags) {word : List Char} (h : word ≠ []) :
    Turn.Takes 1 ((text word).run f) := by
  cases word with
  | nil => exact absurd rfl h
  | cons a rest => exact seqAll_takes f _ (oneChar_takes _)

theorem altAll_takes (f : Flags) {n : Nat} {es : List Expr}
    (h : ∀ e ∈ es, Turn.Takes n (e.run f)) : Turn.Takes n ((altAll es).run f) := by
  induction es with
  | nil =>
    intro c g k m hm
    simp only [altAll, run, oneChar, List.any_nil] at hm
    split at hm <;> simp at hm
  | cons e rest ih =>
    cases rest with
    | nil => exact h e (List.mem_singleton_self e)
    | cons e' rest =>
      intro c g k m hm
      simp only [altAll, run] at hm
      split at hm
      · next m' hm' => exact h e List.mem_cons_self c g k m (hm'.trans hm)
      · exact ih (fun e he => h e (List.mem_cons_of_mem _ he)) c g k m hm

/-- One of some words takes a character or more, if none of them is empty. -/
theorem oneOfWords_takes (f : Flags) {words : List (List Char)} (h : [] ∉ words) :
    Turn.Takes 1 ((oneOfWords words).run f) := by
  refine altAll_takes f fun e he => ?_
  obtain ⟨word, hw, rfl⟩ := List.mem_map.1 he
  refine text_takes f fun hnil => h ?_
  exact hnil ▸ mem_inOrder.1 ((mem_tryOrder _ _).1 hw)

theorem wholeWord_takes (f : Flags) {words : List (List Char)} (h : [] ∉ words) :
    Turn.Takes 1 ((wholeWord words).run f) := by
  have hwords := oneOfWords_takes f h
  have hlater : Turn.Takes 1 ((seq (oneOfWords words) (anchor .wordEdge)).run f) :=
    hwords.seq (run_takes (anchor .wordEdge) f)
  have hall := (run_takes (anchor .wordEdge) f).seq hlater
  rwa [Nat.zero_add] at hall

end Expr

end Pattern
end DocHighlighter
