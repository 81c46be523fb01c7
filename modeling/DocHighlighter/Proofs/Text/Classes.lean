/-
# How the classes of characters lie to one another

A digit is a word character, and a blank is none, so a run of blanks and a run of word characters
behind it can be told apart wherever they meet.
-/

import DocHighlighter.Text.CharClass

namespace DocHighlighter
namespace Text

theorem isWord_of_isDigit {c : Char} (h : isDigit c = true) : isWord c = true := by
  unfold isDigit at h
  unfold isWord
  split at h
  · next hascii => simp [hascii, Char.isAlphanum, h]
  · next hascii => simp [hascii, h]

/-- The code points of the blanks. -/
def blankPoints : List Nat :=
  [9, 10, 11, 12, 13, 0x1c, 0x1d, 0x1e, 0x1f, 0x20, 0x85, 0xa0, 0x1680, 0x2000, 0x2001, 0x2002,
    0x2003, 0x2004, 0x2005, 0x2006, 0x2007, 0x2008, 0x2009, 0x200a, 0x2028, 0x2029, 0x202f, 0x205f,
    0x3000]

theorem toNat_mem_blankPoints {c : Char} (h : isBlank c = true) : c.toNat ∈ blankPoints := by
  simp only [isBlank, Bool.or_eq_true, Bool.and_eq_true, decide_eq_true_eq, beq_iff_eq] at h
  simp only [blankPoints, List.mem_cons, List.not_mem_nil, or_false]
  omega

/-- No blank lies in a range of a table. -/
def blanksOutside (table : Array (Nat × Nat)) : Bool :=
  table.toList.all fun r => blankPoints.all fun n => n < r.1 || r.2 < n

theorem inRanges_of_blanksOutside {table : Array (Nat × Nat)} (h : blanksOutside table = true)
    {c : Char} (hc : isBlank c = true) : inRanges table c = false := by
  rw [inRanges, ← Array.any_toList, List.any_eq_false]
  intro r hr
  have hapart := List.all_eq_true.1 (List.all_eq_true.1 h r hr) _ (toNat_mem_blankPoints hc)
  simp only [Bool.or_eq_true, decide_eq_true_eq] at hapart
  simp only [Bool.and_eq_true, decide_eq_true_eq, not_and]
  omega

theorem blanksOutside_letters : blanksOutside Table.letters = true := by
  decide +kernel

theorem blanksOutside_decimalDigits : blanksOutside Table.decimalDigits = true := by
  decide +kernel

theorem blanksOutside_otherNumerics : blanksOutside Table.otherNumerics = true := by
  decide +kernel

/-- The blanks of ASCII are no word characters. -/
theorem isWord_ofNat_of_blank :
    ∀ n ∈ blankPoints.filter (· < 0x80), isWord (Char.ofNat n) = false := by
  decide +kernel

/-- A blank is no word character. -/
theorem isWord_of_isBlank {c : Char} (h : isBlank c = true) : isWord c = false := by
  by_cases hascii : c.toNat < 0x80
  · have hword := isWord_ofNat_of_blank c.toNat
      (List.mem_filter.2 ⟨toNat_mem_blankPoints h, by simpa using hascii⟩)
    rwa [Char.ofNat_toNat] at hword
  · rw [isWord, if_neg hascii, inRanges_of_blanksOutside blanksOutside_letters h,
      inRanges_of_blanksOutside blanksOutside_decimalDigits h,
      inRanges_of_blanksOutside blanksOutside_otherNumerics h]
    rfl

theorem isDigit_of_isBlank {c : Char} (h : isBlank c = true) : isDigit c = false := by
  have hword := isWord_of_isBlank h
  cases hdigit : isDigit c with
  | false => rfl
  | true => rw [isWord_of_isDigit hdigit] at hword; cases hword

end Text
end DocHighlighter
