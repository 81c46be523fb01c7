/-
# Words as a written pattern

A pattern for one of some words is written with what the words have in common standing once
(`wordForm`), by the table of `DocHighlighter.Pattern.Words`.  The form stands for just the words,
in the order in which they are tried (`Expr.oneOfWords_eq`).

In the signs of a form (`WordForm.signs`), characters that would mean something else stand behind a
backslash, no set is empty, and a question mark stands behind the parenthesis that opens a group, or
behind a whole group.
-/

import DocHighlighter.Pattern.Notation
import DocHighlighter.Proofs.Pattern.Words
import Mathlib.Data.List.Nodup
import Mathlib.Tactic.FinCases

namespace DocHighlighter
namespace Pattern

/-- How one of some words is written. -/
inductive WordForm where
  | text (cs : List Char)
  | oneOf (c : Char) (cs : List Char)
  | optional (body : WordForm)
  | beginning (cs : List Char) (body : WordForm)
  | ending (body : WordForm) (cs : List Char)
  | either (a b : WordForm)

namespace WordForm

/-- The words that a form stands for. -/
def words : WordForm → List (List Char)
  | text cs => [cs]
  | oneOf c cs => (c :: cs).map ([·])
  | optional body => body.words ++ [[]]
  | beginning cs body => body.words.map (cs ++ ·)
  | ending body cs => body.words.map (· ++ cs)
  | either a b => a.words ++ b.words

end WordForm

/-- If there is no beginning in common, not all words begin like a first one that is not empty. -/
theorem exists_head?_ne_cons {a : Char} {rest : List Char} {more : List (List Char)}
    (hstart : commonStart ((a :: rest) :: more) = []) :
    ∃ w ∈ (a :: rest) :: more, w.head? ≠ some a := by
  by_contra! hall
  have hhead := head?_commonStart (List.cons_ne_nil _ more) hall
  rw [hstart] at hhead
  cases hhead

/-- The form of the words of a list in rising order. -/
def wordForm : List (List Char) → WordForm
  | [] => .text []
  | [w] => .text w
  | [] :: second :: more => .optional (wordForm (second :: more))
  | (c :: rest) :: second :: more =>
    let words := (c :: rest) :: second :: more
    let letters := (second :: more).filter (·.length == 1)
    let others := words.filter (·.length != 1)
    let start := commonStart words
    let stop := commonEnd words
    if rest = [] ∧ letters ≠ [] then
      if others = [] then .oneOf c letters.flatten
      else .either (wordForm others) (.oneOf c letters.flatten)
    else if start ≠ [] then .beginning start (wordForm (words.map (·.drop start.length)))
    else if stop ≠ [] then
      .ending (wordForm (inOrder (words.map fun w => w.take (w.length - stop.length)))) stop
    else
      .either (wordForm (words.filter (·.head? == some c)))
        (wordForm (words.filter (·.head? != some c)))
termination_by words => sizeOfWords words
decreasing_by
  · rw [sizeOfWords_cons []]
    omega
  · next hletters _ => exact sizeOfWords_filter_lt List.mem_cons_self (by simp [hletters.1])
  · next hstart => exact sizeOfWords_drop_lt (List.cons_ne_nil _ _) hstart
  · next hstop =>
    rw [sizeOfWords_of_perm (inOrder_perm _)]
    exact sizeOfWords_take_lt (List.cons_ne_nil _ _) hstop
  · next _ hstart _ =>
    obtain ⟨w, hw, hhead⟩ := exists_head?_ne_cons (Decidable.not_not.1 hstart)
    exact sizeOfWords_filter_lt hw (by simpa using hhead)
  · exact sizeOfWords_filter_lt List.mem_cons_self (by simp)

/-- Words in rising order, each of them once. -/
def Rising (words : List (List Char)) : Prop :=
  words.Pairwise (· < ·)

theorem Rising.nodup {words : List (List Char)} (h : Rising words) : words.Nodup :=
  List.Pairwise.imp (fun {u v} (huv : u < v) (heq : u = v) => List.lt_irrefl v (heq ▸ huv)) h

theorem rising_inOrder {words : List (List Char)} (h : words.Nodup) : Rising (inOrder words) := by
  have hsorted : (inOrder words).Pairwise fun u v => !decide (v < u) := by
    refine List.pairwise_mergeSort (fun u v w huv hvw => ?_) (fun u v => ?_) words
    · simp only [Bool.not_eq_true', decide_eq_false_iff_not] at huv hvw ⊢
      exact List.le_trans huv hvw
    · rw [Bool.or_eq_true, Bool.not_eq_true', Bool.not_eq_true', decide_eq_false_iff_not,
        decide_eq_false_iff_not]
      exact not_and_or.1 fun h => List.lt_asymm h.1 h.2
  refine hsorted.imp₂ (fun u v hle hne => ?_) ((inOrder_perm words).nodup_iff.2 h)
  simp only [Bool.not_eq_true', decide_eq_false_iff_not] at hle
  exact List.not_le.1 fun hge => hne (List.le_antisymm hle hge)

theorem Rising.nil_not_mem {first : List Char} {more : List (List Char)}
    (h : Rising (first :: more)) (hfirst : first ≠ []) : [] ∉ first :: more := by
  intro hmem
  rcases List.mem_cons.1 hmem with rfl | hmem
  · exact hfirst rfl
  · exact List.not_lt_nil _ ((List.pairwise_cons.1 h).1 [] hmem)

theorem lt_of_append_lt_append {u v : List Char} : ∀ {s : List Char}, s ++ u < s ++ v → u < v
  | [], h => h
  | _ :: _, h => lt_of_append_lt_append (List.cons_lt_cons_self.1 h)

theorem Rising.drop {words : List (List Char)} (h : Rising words) :
    Rising (words.map (·.drop (commonStart words).length)) := by
  refine List.pairwise_map.2 (h.imp_of_mem fun {u v} hu hv huv => ?_)
  rw [← commonStart_append_drop hu, ← commonStart_append_drop hv] at huv
  exact lt_of_append_lt_append huv

theorem Rising.take {words : List (List Char)} (h : Rising words) :
    Rising (inOrder (words.map fun w => w.take (w.length - (commonEnd words).length))) := by
  refine rising_inOrder (h.nodup.map_on fun u hu v hv huv => ?_)
  rw [← take_append_commonEnd hu, ← take_append_commonEnd hv, huv]

theorem Rising.filter {words : List (List Char)} (h : Rising words) (p : List Char → Bool) :
    Rising (words.filter p) :=
  List.Pairwise.filter p h

/-- A word of one character that comes first is one of several such. -/
theorem one_lt_letters_iff {c : Char} {rest : List Char} {more : List (List Char)} :
    ((c :: rest).length = 1 ∧ 1 < (((c :: rest) :: more).filter (·.length == 1)).length) ↔
      rest = [] ∧ more.filter (·.length == 1) ≠ [] := by
  cases rest with
  | nil => simp [List.length_pos_iff]
  | cons d rest => simp

theorem map_flatten_of_letters {words : List (List Char)} (h : ∀ w ∈ words, w.length = 1) :
    words.flatten.map ([·]) = words := by
  induction words with
  | nil => rfl
  | cons w words ih =>
    obtain ⟨c, rfl⟩ := List.length_eq_one_iff.1 (h w List.mem_cons_self)
    rw [List.flatten_cons, List.map_append, ih fun v hv => h v (List.mem_cons_of_mem _ hv)]
    rfl

/-- **A form stands for just the words it is made of,** in the order in which they are tried. -/
theorem words_wordForm {words : List (List Char)} (hne : words ≠ []) (h : Rising words) :
    (wordForm words).words = tryOrder words := by
  have hletters (c : Char) (more : List (List Char)) :
      (WordForm.oneOf c (more.filter (·.length == 1)).flatten).words =
        ([c] :: more).filter (·.length == 1) := by
    rw [WordForm.words, List.map_cons, map_flatten_of_letters (by simp)]
    rfl
  fun_induction wordForm words with
  | case1 => exact absurd rfl hne
  | case2 w => rw [tryOrder]; rfl
  | case3 second more ih =>
    obtain ⟨hnil, hmore⟩ := List.pairwise_cons.1 h
    have hothers : ([] :: second :: more).filter (!·.isEmpty) = second :: more := by
      rw [List.filter_cons_of_neg (by simp), List.filter_eq_self]
      intro w hw
      cases w with
      | nil => exact absurd (hnil [] hw) (List.lt_irrefl [])
      | cons c w => rfl
    rw [tryOrder, if_pos List.mem_cons_self, hothers, WordForm.words,
      ih (List.cons_ne_nil _ _) hmore]
  | case4 c rest second more words letters others hone hothers =>
    rw [tryOrder, if_neg (h.nil_not_mem (List.cons_ne_nil c rest)),
      if_pos (one_lt_letters_iff.2 hone)]
    obtain rfl := hone.1
    have hnone : (([c] :: second :: more).filter (·.length != 1)) = [] := hothers
    rw [hletters, hnone, tryOrder]
    rfl
  | case5 c rest second more words letters others hone hothers ih =>
    rw [tryOrder, if_neg (h.nil_not_mem (List.cons_ne_nil c rest)),
      if_pos (one_lt_letters_iff.2 hone), WordForm.words, ih hothers (h.filter _)]
    obtain rfl := hone.1
    rw [hletters]
  | case6 c rest second more words letters start hone hstart ih =>
    rw [tryOrder, if_neg (h.nil_not_mem (List.cons_ne_nil c rest)),
      if_neg fun hmany => hone (one_lt_letters_iff.1 hmany), if_pos hstart, WordForm.words,
      ih (by simp [words]) h.drop]
  | case7 c rest second more words letters start stop hone hstart hstop ih =>
    rw [tryOrder, if_neg (h.nil_not_mem (List.cons_ne_nil c rest)),
      if_neg fun hmany => hone (one_lt_letters_iff.1 hmany), if_neg hstart, if_pos hstop,
      WordForm.words, ih (fun hnil => ?_) h.take]
    have hperm := inOrder_perm (words.map fun w => w.take (w.length - stop.length))
    rw [hnil] at hperm
    exact List.cons_ne_nil _ _ hperm.symm.eq_nil
  | case8 c rest second more words letters start stop hone hstart hstop ih ih' =>
    obtain ⟨w, hw, hhead⟩ := exists_head?_ne_cons (Decidable.not_not.1 hstart)
    have hlike : words.filter (·.head? == some c) ≠ [] :=
      List.ne_nil_of_mem (List.mem_filter.2 ⟨List.mem_cons_self, by simp⟩)
    have hunlike : words.filter (·.head? != some c) ≠ [] :=
      List.ne_nil_of_mem (List.mem_filter.2 ⟨hw, by simpa using hhead⟩)
    rw [tryOrder, if_neg (h.nil_not_mem (List.cons_ne_nil c rest)),
      if_neg fun hmany => hone (one_lt_letters_iff.1 hmany), if_neg hstart, if_neg hstop,
      WordForm.words, ih hlike (h.filter _), ih' hunlike (h.filter _)]
    rfl

/-- **The words that are tried for one of some words** are those of the written form. -/
theorem Expr.oneOfWords_eq {words : List (List Char)} (hne : words ≠ []) (h : words.Nodup) :
    Expr.oneOfWords words = .altAll ((wordForm (inOrder words)).words.map .text) := by
  have hnonempty : inOrder words ≠ [] := fun hnil => hne ((hnil ▸ inOrder_perm words).symm.eq_nil)
  rw [words_wordForm hnonempty (rising_inOrder h)]
  rfl

/-! ## The signs of a form -/

/-- The characters that have a meaning in a written pattern, or are skipped in one. -/
def escapedChars : List Char :=
  ['(', ')', '[', ']', '\x7b', '\x7d', '?', '*', '+', '-', '|', '^', '$', '\\', '.', '&', '~', '#',
    ' ', '\t', '\n', '\r', '\x0b', '\x0c']

/-- A character that stands for itself. -/
def textSign (c : Char) : Sign :=
  if escapedChars.contains c then .escape c else .char c

/-- A text, each of its characters standing for itself. -/
def textSigns (cs : List Char) : List Sign :=
  cs.map textSign

/-- A character of a set, behind a backslash if it has a meaning there. -/
def setSign (c : Char) : Sign :=
  if ['[', '^', '\\', '-', ']'].contains c then .escape c else .char c

/-- A set of characters. -/
def setSigns (cs : List Char) : List Sign :=
  .char '[' :: cs.map setSign ++ [.char ']']

/-- A group that captures nothing. -/
def groupSigns (body : List Sign) : List Sign :=
  [.char '(', .char '?', .char ':'] ++ body ++ [.char ')']

/-- The signs of a form. -/
def WordForm.signs : WordForm → List Sign
  | text cs => textSigns cs
  | oneOf c cs => setSigns (c :: cs)
  | optional body => groupSigns body.signs ++ [.char '?']
  | beginning cs body => textSigns cs ++ groupSigns body.signs
  | ending body cs => groupSigns body.signs ++ textSigns cs
  | either a b => a.signs ++ .char '|' :: b.signs

theorem textSign_ne {c d : Char} (hd : d ∈ escapedChars) : textSign c ≠ .char d := by
  unfold textSign
  split
  · exact Sign.noConfusion
  · next h =>
    rintro ⟨⟩
    exact h (List.contains_iff_mem.2 hd)

/-- A form does not begin with what would make a group around it one of another kind. -/
theorem WordForm.head?_signs (form : WordForm) : form.signs.head? ≠ some (.char '?') := by
  induction form with
  | text cs =>
    cases cs with
    | nil => simp [signs, textSigns]
    | cons c cs => simpa [signs, textSigns] using textSign_ne (by decide)
  | oneOf c cs => simp [signs, setSigns]
  | optional body _ => simp [signs, groupSigns]
  | beginning cs body _ =>
    cases cs with
    | nil => simp [signs, textSigns, groupSigns]
    | cons c cs => simpa [signs, textSigns] using textSign_ne (by decide)
  | ending body cs _ => simp [signs, groupSigns]
  | either a b ih _ =>
    cases ha : a.signs with
    | nil => simp [signs, ha]
    | cons s more => simpa [signs, ha] using ih

/-- Signs that are read as they are written: a backslash never stands alone. -/
def Sign.IsWritten : Sign → Prop
  | .char c => c ≠ '\\'
  | .escape _ => True
  | .dangling => False

theorem Sign.ofText_written {signs : List Sign} (h : ∀ s ∈ signs, s.IsWritten) :
    ofText (signs.flatMap written) = signs := by
  induction signs with
  | nil => rfl
  | cons s signs ih =>
    have hrest := ih fun s hs => h s (List.mem_cons_of_mem _ hs)
    have hs := h s List.mem_cons_self
    rw [List.flatMap_cons]
    cases s with
    | char c =>
      rw [written, List.singleton_append, ofText, hrest]
      · rintro rfl
        exact absurd rfl hs
      · rintro _ _ rfl
        exact absurd rfl hs
    | escape c => rw [written, List.cons_append, List.singleton_append, ofText, hrest]
    | dangling => exact hs.elim

theorem isWritten_of_mem_textSigns {cs : List Char} : ∀ s ∈ textSigns cs, s.IsWritten := by
  intro s hs
  obtain ⟨c, -, rfl⟩ := List.mem_map.1 hs
  unfold textSign
  split
  · trivial
  · next h =>
    rintro rfl
    exact h (by decide)

theorem isWritten_of_mem_setSigns {cs : List Char} : ∀ s ∈ setSigns cs, s.IsWritten := by
  intro s hs
  simp only [setSigns, List.mem_append, List.mem_cons, List.mem_map, List.not_mem_nil,
    or_false] at hs
  obtain (rfl | ⟨c, -, rfl⟩) | rfl := hs
  · exact Char.ne_of_val_ne (by decide)
  · unfold setSign
    split
    · trivial
    · next h =>
      rintro rfl
      exact h (by decide)
  · exact Char.ne_of_val_ne (by decide)

theorem isWritten_of_mem_groupSigns {body : List Sign} (h : ∀ s ∈ body, s.IsWritten) :
    ∀ s ∈ groupSigns body, s.IsWritten := by
  have hopen : ∀ s ∈ [Sign.char '(', .char '?', .char ':'], s.IsWritten := by
    simp [Sign.IsWritten]
  have hclose : ∀ s ∈ [Sign.char ')'], s.IsWritten := by
    simp [Sign.IsWritten]
  exact List.forall_mem_append.2 ⟨List.forall_mem_append.2 ⟨hopen, h⟩, hclose⟩

theorem WordForm.isWritten (form : WordForm) : ∀ s ∈ form.signs, s.IsWritten := by
  induction form with
  | text cs => exact isWritten_of_mem_textSigns
  | oneOf c cs => exact isWritten_of_mem_setSigns
  | optional body ih =>
    refine List.forall_mem_append.2 ⟨isWritten_of_mem_groupSigns ih, ?_⟩
    simp [Sign.IsWritten]
  | beginning cs body ih =>
    exact List.forall_mem_append.2 ⟨isWritten_of_mem_textSigns, isWritten_of_mem_groupSigns ih⟩
  | ending body cs ih =>
    exact List.forall_mem_append.2 ⟨isWritten_of_mem_groupSigns ih, isWritten_of_mem_textSigns⟩
  | either a b ih ih' =>
    refine List.forall_mem_append.2 ⟨ih, List.forall_mem_cons.2 ⟨?_, ih'⟩⟩
    simp [Sign.IsWritten]

/-! ## The whole pattern -/

/-- The signs of a pattern for a whole word of a list. -/
def wholeWordSigns (words : List (List Char)) : List Sign :=
  [.escape 'b'] ++ (.char '(' :: (wordForm (inOrder words)).signs ++ [.char ')']) ++ [.escape 'b']

/-- A pattern for a whole word of a list, as it is written. -/
def wholeWordText (words : List (List Char)) : String :=
  String.ofList ((wholeWordSigns words).flatMap Sign.written)

theorem isWritten_of_mem_wholeWordSigns (words : List (List Char)) :
    ∀ s ∈ wholeWordSigns words, s.IsWritten := by
  have hform := (wordForm (inOrder words)).isWritten
  simp only [wholeWordSigns, List.forall_mem_append, List.forall_mem_cons]
  simpa [Sign.IsWritten] using hform

end Pattern
end DocHighlighter
