/-
# Upper case makes no NUL

The upper case of a character is one character or several, by the tables of case maps.  None of them
is NUL, unless the character is (`nul_not_mem_upperText`).  So the words of any name, with their
first letters in upper case, make the name of a type.
-/

import DocHighlighter.Text.Case

namespace DocHighlighter
namespace Text

/-- Whether a number is the code of a character that is not NUL. -/
def isPlainCode (n : Nat) : Bool :=
  0 < n && (n < 0xd800 || (0xdfff < n && n < 0x110000))

theorem toNat_ofNat {n : Nat} (h : isPlainCode n = true) : (Char.ofNat n).toNat = n := by
  simp only [isPlainCode, Bool.and_eq_true, Bool.or_eq_true, decide_eq_true_eq] at h
  have hvalid : n.isValidChar := by
    unfold Nat.isValidChar
    omega
  rw [Char.ofNat, dif_pos hvalid]
  rfl

theorem ofNat_ne_nul {n : Nat} (h : isPlainCode n = true) : Char.ofNat n ≠ '\x00' := by
  intro heq
  have hzero : n = 0 := (toNat_ofNat h).symm.trans (congrArg Char.toNat heq)
  rw [hzero] at h
  cases h

/-- Whether a shift leads to characters other than NUL. -/
def shiftsToPlain (s : Table.Shift) : Bool :=
  0 < s.first + s.offset &&
    (s.last + s.offset < 0xd800 || (0xdfff < s.first + s.offset && s.last + s.offset < 0x110000))

theorem shiftsToPlain_upperShifts : Table.upperShifts.all shiftsToPlain = true := by
  decide +kernel

theorem isPlainCode_upperTexts :
    Table.upperTexts.all (fun e => e.2.all isPlainCode) = true := by
  decide +kernel

theorem ofNat_image?_ne_nul {s : Table.Shift} (h : shiftsToPlain s = true) {c n : Nat}
    (hn : s.image? c = some n) : Char.ofNat n ≠ '\x00' := by
  unfold Table.Shift.image? at hn
  split at hn
  · next hc =>
    obtain rfl := Option.some.inj hn
    refine ofNat_ne_nul ?_
    simp only [shiftsToPlain, isPlainCode, Bool.and_eq_true, Bool.or_eq_true,
      decide_eq_true_eq] at h ⊢
    omega
  · cases hn

theorem toUpper_ne_nul {c : Char} (hascii : c.toNat < 0x80) (h : c ≠ '\x00') :
    c.toUpper ≠ '\x00' := by
  have hall : ∀ n < 0x80, Char.ofNat n ≠ '\x00' → (Char.ofNat n).toUpper ≠ '\x00' := by
    decide +kernel
  have hc := hall c.toNat hascii
  rw [Char.ofNat_toNat] at hc
  exact hc h

/-- **No upper case holds a NUL,** except that of NUL itself. -/
theorem nul_not_mem_upperText {c : Char} (h : c ≠ '\x00') : '\x00' ∉ upperText c := by
  unfold upperText
  split
  · next hascii => exact fun hmem => toUpper_ne_nul hascii h (List.mem_singleton.1 hmem).symm
  · split
    · next text htext =>
      obtain ⟨e, he, rfl⟩ := Option.map_eq_some_iff.1 htext
      intro hmem
      obtain ⟨n, hn, hnul⟩ := List.mem_map.1 hmem
      have hplain := Array.all_eq_true_iff_forall_mem.1 isPlainCode_upperTexts e
        (Array.mem_of_find?_eq_some he)
      exact ofNat_ne_nul (List.all_eq_true.1 hplain n hn) hnul
    · intro hmem
      have hnul := List.mem_singleton.1 hmem
      cases hshift : shifted? Table.upperShifts c with
      | none =>
        rw [hshift] at hnul
        exact h hnul.symm
      | some d =>
        rw [hshift] at hnul
        obtain ⟨n, hn, rfl⟩ := Option.map_eq_some_iff.1 hshift
        obtain ⟨s, hs, himage⟩ := Array.exists_of_findSome?_eq_some hn
        have hplain := Array.all_eq_true_iff_forall_mem.1 shiftsToPlain_upperShifts s hs
        exact ofNat_image?_ne_nul hplain himage hnul.symm

end Text
end DocHighlighter
