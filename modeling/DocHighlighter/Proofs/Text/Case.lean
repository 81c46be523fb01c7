/-
# Case maps and their tables

The case maps go by tables: of shifts, which move code points, and of texts.  What holds of all
characters is had from the entries, so it is stated on code points (`lowerPoint`, `foldPoints`,
`samePoint`) and checked entry by entry (`tables_checked`).

| fact | check |
|---|---|
| lower case is not moved (`lowerPoint_lowerPoint`) | no shift moves what a shift leads to |
| lower case has the folding (`foldPoints_lowerPoint`) | points with foldings of their own, one by one |
| a single folding is the same character (`samePoint_of_foldPoints`) | each such folding |
| one folding means the same character (`samePoint_of_foldPoints_eq`) | foldings to texts, by pairs |

For a pattern that ignores case, two characters are the same exactly if they have one full folding
(`foldText_eq_iff`), but for `İ` and `ı`: the pattern takes both for `i`, and their foldings are their
own.

Words differ more, as a folding may be several characters: `ß` is folded as `ss` is.  A character is
steady (`IsSteady`) if its folding has no second word character.  What comes behind the first is then
combining marks, which no folding of a word character begins with, so the folding of a word of steady
characters can be taken apart (`flatMap_foldText_eq_iff`).  No other character will do
(`exists_of_not_isSteady`).
-/

import DocHighlighter.Proofs.Text.UpperCase
import DocHighlighter.Text.CharClass
import Mathlib.Data.List.Forall2

namespace DocHighlighter
namespace Text

namespace Table
namespace Shift

variable {s : Shift} {n : Nat}

/-- Whether an entry moves a code point. -/
def covers (s : Shift) (n : Nat) : Bool :=
  Nat.ble s.first n && Nat.ble n s.last && Nat.beq ((n - s.first) % s.step) 0

/-- Where an entry moves a code point to. -/
def target (s : Shift) (n : Nat) : Nat :=
  ((n : Int) + s.offset).toNat

/-- The code points that an entry moves. -/
def points (s : Shift) : List Nat :=
  (List.range ((s.last - s.first) / s.step + 1)).map fun k => s.first + k * s.step

theorem covers_iff : s.covers n = true ↔ s.first ≤ n ∧ n ≤ s.last ∧ (n - s.first) % s.step = 0 := by
  simp [covers, and_assoc]

theorem image?_eq (s : Shift) (n : Nat) :
    s.image? n = if s.covers n then some (s.target n) else none := by
  simp only [covers_iff]
  rfl

theorem mem_points (h : s.covers n = true) : n ∈ s.points := by
  obtain ⟨hfirst, hlast, hstep⟩ := covers_iff.1 h
  refine List.mem_map.2 ⟨(n - s.first) / s.step, List.mem_range.2 ?_, ?_⟩
  · exact Nat.lt_succ_of_le (Nat.div_le_div_right (Nat.sub_le_sub_right hlast _))
  · have hmul := Nat.div_mul_cancel (Nat.dvd_of_mod_eq_zero hstep)
    omega

theorem isPlainCode_target (hplain : shiftsToPlain s = true) (h : s.covers n = true) :
    isPlainCode (s.target n) = true := by
  obtain ⟨hfirst, hlast, -⟩ := covers_iff.1 h
  simp only [shiftsToPlain, isPlainCode, Bool.and_eq_true, Bool.or_eq_true,
    decide_eq_true_eq] at hplain ⊢
  unfold target
  omega

end Shift
end Table

open Table (lowerShifts foldShifts foldTexts sameUpper)

/-! ## Tables of code points -/

/-- Numbers as the places of bits. -/
def mask (ns : List Nat) : Nat :=
  ns.foldr (fun n m => m ||| 1 <<< n) 0

theorem testBit_mask {ns : List Nat} {n : Nat} : (mask ns).testBit n = true ↔ n ∈ ns := by
  induction ns with
  | nil => simp [mask]
  | cons k ns ih =>
    rw [mask, List.foldr_cons, Nat.testBit_or, Bool.or_eq_true, ← mask, ih, Nat.one_shiftLeft,
      Nat.testBit_two_pow, List.mem_cons, decide_eq_true_eq]
    exact ⟨fun h => h.symm.imp_left Eq.symm, fun h => h.symm.imp_right Eq.symm⟩

/-- The code points that a table of shifts moves. -/
def sources (table : Array Table.Shift) : List Nat :=
  table.toList.flatMap Table.Shift.points

/-- The code points that a table of shifts leads to. -/
def targets (table : Array Table.Shift) : List Nat :=
  table.toList.flatMap fun s => s.points.map s.target

/-- The code points that have an entry in a table of texts. -/
def keys (texts : Array (Nat × List Nat)) : List Nat :=
  texts.toList.map (·.1)

/-- Where a table of shifts moves a code point. -/
def movedPoint? (table : Array Table.Shift) (n : Nat) : Option Nat :=
  if (mask (sources table)).testBit n then (table.toList.find? (·.covers n)).map (·.target n)
  else none

/-- The entry of a code point in a table of texts. -/
def pointsOf? (texts : Array (Nat × List Nat)) (n : Nat) : Option (List Nat) :=
  if (mask (keys texts)).testBit n then (texts.toList.find? (·.1.beq n)).map (·.2) else none

section Tables

variable {table : Array Table.Shift} {texts : Array (Nat × List Nat)} {n m : Nat} {text : List Nat}

theorem mem_sources {s : Table.Shift} (hs : s ∈ table.toList) (h : s.covers n = true) :
    n ∈ sources table :=
  List.mem_flatMap.2 ⟨s, hs, Table.Shift.mem_points h⟩

theorem movedPoint?_eq (table : Array Table.Shift) (n : Nat) :
    movedPoint? table n = (table.toList.find? (·.covers n)).map (·.target n) := by
  rw [movedPoint?, ite_eq_left_iff]
  intro hmoved
  rw [List.find?_eq_none.2 fun s hs hcovers => hmoved (testBit_mask.2 (mem_sources hs hcovers))]
  rfl

theorem pointsOf?_eq (texts : Array (Nat × List Nat)) (n : Nat) :
    pointsOf? texts n = (texts.toList.find? (·.1.beq n)).map (·.2) := by
  rw [pointsOf?, ite_eq_left_iff]
  intro hkey
  have hnone : texts.toList.find? (·.1.beq n) = none := List.find?_eq_none.2 fun e he hsame => by
    obtain rfl := Nat.eq_of_beq_eq_true hsame
    exact hkey (testBit_mask.2 (List.mem_map_of_mem he))
  rw [hnone]
  rfl

theorem movedPoint?_eq_none (h : n ∉ sources table) : movedPoint? table n = none :=
  if_neg (mt testBit_mask.1 h)

theorem pointsOf?_eq_none (h : n ∉ keys texts) : pointsOf? texts n = none :=
  if_neg (mt testBit_mask.1 h)

theorem exists_of_movedPoint? (h : movedPoint? table n = some m) :
    ∃ s ∈ table.toList, s.covers n = true ∧ m = s.target n := by
  rw [movedPoint?_eq] at h
  obtain ⟨s, hs, rfl⟩ := Option.map_eq_some_iff.1 h
  have hcovers := List.find?_some (p := fun s : Table.Shift => s.covers n) hs
  exact ⟨s, List.mem_of_find?_eq_some hs, hcovers, rfl⟩

theorem exists_of_pointsOf? (h : pointsOf? texts n = some text) : (n, text) ∈ texts.toList := by
  rw [pointsOf?_eq] at h
  obtain ⟨e, he, rfl⟩ := Option.map_eq_some_iff.1 h
  have hsame := List.find?_some (p := fun e : Nat × List Nat => e.1.beq n) he
  obtain rfl := Nat.eq_of_beq_eq_true hsame
  exact List.mem_of_find?_eq_some he

theorem shifted?_eq (table : Array Table.Shift) (c : Char) :
    shifted? table c = (movedPoint? table c.toNat).map Char.ofNat := by
  rw [shifted?, movedPoint?_eq, ← Array.findSome?_toList]
  congr 1
  induction table.toList with
  | nil => rfl
  | cons s rest ih =>
    rw [List.findSome?_cons, List.find?_cons, ih, Table.Shift.image?_eq]
    cases s.covers c.toNat <;> rfl

theorem textOf?_eq (texts : Array (Nat × List Nat)) (c : Char) :
    textOf? texts c = (pointsOf? texts c.toNat).map (·.map Char.ofNat) := by
  have hsame : (fun e : Nat × List Nat => e.1.beq c.toNat) = fun e => e.1 == c.toNat := by
    funext e
    rw [Bool.eq_iff_iff, Nat.beq_eq, beq_iff_eq]
  rw [textOf?, pointsOf?_eq, Option.map_map, hsame, Array.find?_toList]
  rfl

/-- Shifts to characters move a character as its code point. -/
theorem toNat_shifted? (hplain : table.all shiftsToPlain = true) (c d : Char) :
    ((shifted? table c).getD d).toNat = (movedPoint? table c.toNat).getD d.toNat := by
  rw [shifted?_eq]
  cases hmoved : movedPoint? table c.toNat with
  | none => rfl
  | some m =>
    obtain ⟨s, hs, hcovers, rfl⟩ := exists_of_movedPoint? hmoved
    exact toNat_ofNat (Table.Shift.isPlainCode_target
      (Array.all_eq_true_iff_forall_mem.1 hplain s (Array.mem_toList_iff.1 hs)) hcovers)

theorem map_toNat_ofNat {points : List Nat} (h : points.all isPlainCode = true) :
    (points.map Char.ofNat).map Char.toNat = points := by
  rw [List.map_map]
  exact (List.map_congr_left fun n hn => toNat_ofNat (List.all_eq_true.1 h n hn)).trans
    (List.map_id _)

/-- Texts of characters are those of their code points. -/
theorem map_toNat_textOf? (hplain : texts.all (·.2.all isPlainCode) = true) (c : Char) :
    (textOf? texts c).map (·.map Char.toNat) = pointsOf? texts c.toNat := by
  rw [textOf?_eq]
  cases htext : pointsOf? texts c.toNat with
  | none => rfl
  | some text =>
    exact congrArg some (map_toNat_ofNat (Array.all_eq_true_iff_forall_mem.1 hplain _
      (Array.mem_toList_iff.1 (exists_of_pointsOf? htext))))

end Tables

/-! ## Case maps on code points -/

/-- The lower case of a code point. -/
def lowerPoint (n : Nat) : Nat :=
  if n < 0x80 then if 0x41 ≤ n ∧ n ≤ 0x5a then n + 32 else n
  else (movedPoint? lowerShifts n).getD n

/-- The full folding of a code point. -/
def foldPoints (n : Nat) : List Nat :=
  if n < 0x80 then [lowerPoint n]
  else match pointsOf? foldTexts n with
    | some text => text
    | none => [(movedPoint? foldShifts n).getD (lowerPoint n)]

/-- The other lower-case code points with the same upper case. -/
def twinPoints (n : Nat) : List Nat :=
  (pointsOf? sameUpper n).getD []

/-- Whether two code points are the same for a pattern that ignores case. -/
def samePoint (n m : Nat) : Bool :=
  (lowerPoint m).beq (lowerPoint n) || (twinPoints (lowerPoint n)).any (·.beq (lowerPoint m))

/-- Whether a code point is that of a combining mark, as far as foldings have them. -/
def isMarkPoint (n : Nat) : Bool :=
  Nat.ble 0x300 n && n.ble 0x342

/-- The tables of word characters. -/
def wordTables : List (Array (Nat × Nat)) :=
  [Table.letters, Table.decimalDigits, Table.otherNumerics]

/-- Whether a code point is that of a word character. -/
def isWordPoint (n : Nat) : Bool :=
  if n < 0x80 then isWord (Char.ofNat n)
  else wordTables.any fun table => table.toList.any fun r => r.1.ble n && n.ble r.2

/-- Characters that together have the folding of one, each with a single word character. -/
def partsOf (e : Nat × List Nat) : List Nat :=
  match e.1 with
  | 0x1fb7 => [0x1fb6, 0x3b9]
  | 0x1fc7 => [0x1fc6, 0x3b9]
  | 0x1ff7 => [0x1ff6, 0x3b9]
  | _ => e.2

/-! ## What is checked of the tables -/

/-- The tables lead to characters, and ASCII letters are moved as the table would move them. -/
def leadToCharacters : Bool :=
  lowerShifts.toList.all shiftsToPlain && foldShifts.toList.all shiftsToPlain &&
    foldTexts.toList.all (·.2.all isPlainCode) && sameUpper.toList.all (·.2.all isPlainCode) &&
    (List.range 0x80).all fun n => (Char.ofNat n).toLower.toNat.beq (lowerPoint n)

/-- No shift to lower case moves what one leads to; none leads to an ASCII capital or to `ı`. -/
def lowersStay : Bool :=
  (mask (targets lowerShifts) &&& mask (sources lowerShifts)).beq 0 &&
    (targets lowerShifts).all fun n => Nat.blt 0x5a n && !n.beq 0x131

/-- Whether a code point has no folding of its own. -/
def foldsPlainly (n : Nat) : Bool :=
  !(mask (keys foldTexts ++ sources foldShifts)).testBit n

/-- Lower case is folded alike, except that of `İ`. -/
def lowersFoldAlike : Bool :=
  lowerShifts.toList.all fun s => s.points.all fun n =>
    (foldsPlainly n && foldsPlainly (s.target n)) || n.beq 0x130 ||
      foldPoints (lowerPoint n) == foldPoints n

/-- Single foldings are the same characters; a folding to a text is to two or more. -/
def foldingsAreSame : Bool :=
  (foldShifts.toList.all fun s =>
    s.offset == 0 || s.points.all fun n => samePoint n (s.target n)) &&
  foldTexts.toList.all fun e => Nat.ble 2 e.2.length

/-- A text of code points as one number. -/
def textKey (text : List Nat) : Nat :=
  text.foldl (fun k n => k * 0x20000 + n) 1

/-- Code points with one text for folding are the same. -/
def textsAreSame : Bool :=
  foldTexts.toList.all fun e => foldTexts.toList.all fun e' =>
    !(textKey e.2).beq (textKey e'.2) || samePoint e.1 e'.1

/-- Twins are twins of one another, and folded alike but for `ı`. -/
def twinsAgree : Bool :=
  sameUpper.toList.all fun e =>
    (e.2.all fun m => (twinPoints m).any (·.beq e.1) &&
      (twinPoints m).all fun k => k.beq e.1 || e.2.any (·.beq k)) &&
    (e.1.beq 0x131 || e.2.all fun m => m.beq 0x131 || foldPoints m == foldPoints e.1)

/-- Marks are no word characters, foldings begin with none, and go on with marks and word
characters. -/
def marksStandApart : Bool :=
  (wordTables.all fun table => table.toList.all fun r => r.2.blt 0x300 || Nat.blt 0x342 r.1) &&
  ((targets foldShifts ++ targets lowerShifts).all fun n => !isMarkPoint n) &&
  foldTexts.toList.all fun e =>
    !e.2.head?.any isMarkPoint && e.2.tail.all fun n => isMarkPoint n || isWordPoint n

/-- Whether a code point is that of a word character whose folding goes on with marks only. -/
def isSteadyPoint (n : Nat) : Bool :=
  isPlainCode n && isWordPoint n && (foldPoints n).tail.all isMarkPoint && !n.beq 0x130 &&
    !n.beq 0x131

/-- What is not steady shares a folding with steady characters that are not the same, or is the same
as a steady one with another folding. -/
def partsFit : Bool :=
  (foldTexts.toList.all fun e => e.2.tail.all isMarkPoint ||
    (Nat.ble 2 (partsOf e).length && (partsOf e).flatMap foldPoints == e.2 &&
      (partsOf e).all isSteadyPoint)) &&
  isSteadyPoint 0x69 && [0x130, 0x131].all fun n => samePoint 0x69 n && foldPoints n != [0x69]

/-- **The tables are as they should be.** -/
theorem tables_checked : leadToCharacters = true ∧ lowersStay = true ∧ lowersFoldAlike = true ∧
    foldingsAreSame = true ∧ textsAreSame = true ∧ twinsAgree = true ∧ marksStandApart = true ∧
    partsFit = true := by
  decide +kernel

variable {n m k : Nat}

/-! ## Characters and their code points -/

theorem plain_tables : (lowerShifts.all shiftsToPlain = true ∧ foldShifts.all shiftsToPlain = true ∧
    foldTexts.all (·.2.all isPlainCode) = true ∧ sameUpper.all (·.2.all isPlainCode) = true) ∧
    ∀ n < 0x80, (Char.ofNat n).toLower.toNat = lowerPoint n := by
  have hchecked := tables_checked.1
  simp only [leadToCharacters, Bool.and_eq_true, Array.all_toList] at hchecked
  obtain ⟨⟨⟨⟨hlower, hfold⟩, htexts⟩, hsame⟩, hascii⟩ := hchecked
  exact ⟨⟨hlower, hfold, htexts, hsame⟩, fun n hn =>
    Nat.eq_of_beq_eq_true (List.all_eq_true.1 hascii n (List.mem_range.2 hn))⟩

theorem toNat_toLower {c : Char} (hascii : c.toNat < 0x80) :
    c.toLower.toNat = lowerPoint c.toNat := by
  simpa using plain_tables.2 c.toNat hascii

theorem toNat_lower (c : Char) : (lower c).toNat = lowerPoint c.toNat := by
  unfold lower
  split
  · next hascii => exact toNat_toLower hascii
  · next hascii =>
    rw [lowerPoint, if_neg hascii]
    exact toNat_shifted? plain_tables.1.1 c c

theorem map_toNat_foldText (c : Char) : (foldText c).map Char.toNat = foldPoints c.toNat := by
  have htext := map_toNat_textOf? plain_tables.1.2.2.1 c
  unfold foldText foldPoints
  split
  · next hascii => exact congrArg (fun n => [n]) (toNat_toLower hascii)
  · rw [← htext]
    cases textOf? foldTexts c with
    | some text => rfl
    | none =>
      refine congrArg (fun n => [n]) ?_
      rw [toNat_shifted? plain_tables.1.2.1, toNat_lower]

theorem map_toNat_lowerTwins (c : Char) : (lowerTwins c).map Char.toNat = twinPoints c.toNat := by
  rw [twinPoints, ← map_toNat_textOf? plain_tables.1.2.2.2, lowerTwins]
  cases textOf? sameUpper c <;> rfl

theorem toNat_injective : Function.Injective Char.toNat := fun a b h => by
  rw [← Char.ofNat_toNat a, h, Char.ofNat_toNat]

theorem samePoint_iff : samePoint n m = true ↔
    lowerPoint m = lowerPoint n ∨ lowerPoint m ∈ twinPoints (lowerPoint n) := by
  simp [samePoint]

theorem sameIgnoringCase_iff {a b : Char} :
    sameIgnoringCase a b = true ↔ samePoint a.toNat b.toNat = true := by
  rw [samePoint_iff, ← toNat_lower, ← toNat_lower, ← map_toNat_lowerTwins,
    List.mem_map_of_injective toNat_injective, toNat_injective.eq_iff]
  simp only [sameIgnoringCase, Bool.or_eq_true, beq_iff_eq, List.contains_iff_mem]
  exact or_congr_left eq_comm

theorem foldText_eq_iff_points {a b : Char} :
    foldText a = foldText b ↔ foldPoints a.toNat = foldPoints b.toNat := by
  rw [← map_toNat_foldText, ← map_toNat_foldText]
  exact (List.map_injective_iff.2 toNat_injective).eq_iff.symm

theorem isWord_eq (c : Char) : isWord c = isWordPoint c.toNat := by
  have hranges : ∀ table, inRanges table c =
      table.toList.any fun r => r.1.ble c.toNat && c.toNat.ble r.2 := by
    intro table
    rw [inRanges, ← Array.any_toList]
    congr 1
    funext r
    rw [Bool.eq_iff_iff]
    simp
  unfold isWordPoint
  split
  · rw [Char.ofNat_toNat]
  · next hascii =>
    rw [isWord, if_neg hascii, hranges, hranges, hranges]
    simp [wordTables, Bool.or_assoc]

/-! ## Lower case -/

/-- A code point is its own lower case, or an entry moves it to that, or it is an ASCII letter. -/
theorem lowerPoint_cases (n : Nat) : lowerPoint n = n ∨
    (∃ s ∈ lowerShifts.toList, s.covers n = true ∧ lowerPoint n = s.target n) ∨
    (0x41 ≤ n ∧ n ≤ 0x5a ∧ lowerPoint n = n + 32) := by
  unfold lowerPoint
  split
  · split
    · next hletter => exact .inr (.inr ⟨hletter.1, hletter.2, rfl⟩)
    · exact .inl rfl
  · cases hmoved : movedPoint? lowerShifts n with
    | none => exact .inl rfl
    | some m =>
      obtain ⟨s, hs, hcovers, rfl⟩ := exists_of_movedPoint? hmoved
      exact .inr (.inl ⟨s, hs, hcovers, rfl⟩)

theorem mem_targets {table : Array Table.Shift} {s : Table.Shift} (hs : s ∈ table.toList)
    (h : s.covers n = true) : s.target n ∈ targets table :=
  List.mem_flatMap.2 ⟨s, hs, List.mem_map_of_mem (Table.Shift.mem_points h)⟩

theorem of_mem_targets (h : n ∈ targets lowerShifts) :
    n ∉ sources lowerShifts ∧ 0x5a < n ∧ n ≠ 0x131 := by
  have hchecked := tables_checked.2.1
  rw [lowersStay, Bool.and_eq_true, Nat.beq_eq] at hchecked
  have hpoint := List.all_eq_true.1 hchecked.2 n h
  rw [Bool.and_eq_true, Nat.blt_eq, Bool.not_eq_true', ← Bool.not_eq_true, Nat.beq_eq] at hpoint
  refine ⟨fun hmem => ?_, hpoint⟩
  have hbit := congrArg (Nat.testBit · n) hchecked.1
  simp only [Nat.testBit_and, testBit_mask.2 h, testBit_mask.2 hmem, Nat.zero_testBit] at hbit
  cases hbit

theorem lowerPoint_of_lt (hn : 0x5a < n) (hstays : n ∉ sources lowerShifts) : lowerPoint n = n := by
  unfold lowerPoint
  split
  · exact if_neg (by omega)
  · rw [movedPoint?_eq_none hstays]
    rfl

/-- **Lower case is not moved.** -/
theorem lowerPoint_lowerPoint (n : Nat) : lowerPoint (lowerPoint n) = lowerPoint n := by
  obtain h | ⟨s, hs, hcovers, h⟩ | ⟨hfirst, hlast, h⟩ := lowerPoint_cases n
  · rw [h, h]
  · obtain ⟨hstays, hlt, -⟩ := of_mem_targets (mem_targets hs hcovers)
    rw [h, lowerPoint_of_lt hlt hstays]
  · rw [h, lowerPoint, if_pos (by omega), if_neg (by omega)]

/-- Only `ı` is the lower case of `ı`. -/
theorem eq_of_lowerPoint_eq (h : lowerPoint n = 0x131) : n = 0x131 := by
  obtain hn | ⟨s, hs, hcovers, hn⟩ | ⟨-, hlast, hn⟩ := lowerPoint_cases n
  · exact hn.symm.trans h
  · exact absurd (hn.symm.trans h) (of_mem_targets (mem_targets hs hcovers)).2.2
  · omega

/-! ## Folding -/

/-- How a code point is folded. -/
theorem foldPoints_cases (n : Nat) : (n, foldPoints n) ∈ foldTexts.toList ∨
    (∃ s ∈ foldShifts.toList, s.covers n = true ∧ foldPoints n = [s.target n]) ∨
    foldPoints n = [lowerPoint n] := by
  unfold foldPoints
  split
  · exact .inr (.inr rfl)
  · cases htext : pointsOf? foldTexts n with
    | some text => exact .inl (exists_of_pointsOf? htext)
    | none =>
      cases hmoved : movedPoint? foldShifts n with
      | none => exact .inr (.inr rfl)
      | some m =>
        obtain ⟨s, hs, hcovers, rfl⟩ := exists_of_movedPoint? hmoved
        exact .inr (.inl ⟨s, hs, hcovers, rfl⟩)

theorem foldPoints_of_foldsPlainly (h : foldsPlainly n = true) : foldPoints n = [lowerPoint n] := by
  rw [foldsPlainly, Bool.not_eq_true', ← Bool.not_eq_true, testBit_mask, List.mem_append,
    not_or] at h
  unfold foldPoints
  split
  · rfl
  · rw [pointsOf?_eq_none h.1, movedPoint?_eq_none h.2]
    rfl

/-- **Lower case has the folding,** except that of `İ`. -/
theorem foldPoints_lowerPoint (hn : n ≠ 0x130) : foldPoints (lowerPoint n) = foldPoints n := by
  obtain h | ⟨s, hs, hcovers, h⟩ | ⟨hfirst, hlast, h⟩ := lowerPoint_cases n
  · rw [h]
  · have hchecked := List.all_eq_true.1 (List.all_eq_true.1 tables_checked.2.2.1 s hs) n
      (Table.Shift.mem_points hcovers)
    simp only [Bool.or_eq_true, Bool.and_eq_true, Nat.beq_eq, beq_iff_eq] at hchecked
    obtain (⟨hplain, htarget⟩ | hi) | hsame := hchecked
    · rw [foldPoints_of_foldsPlainly hplain, h, foldPoints_of_foldsPlainly htarget, ← h,
        lowerPoint_lowerPoint]
    · exact absurd hi hn
    · exact hsame
  · rw [h, foldPoints, foldPoints, if_pos (by omega), if_pos (by omega), ← h, lowerPoint_lowerPoint]

/-! ## One folding, one character -/

theorem samePoint_refl (n : Nat) : samePoint n n = true :=
  samePoint_iff.2 (.inl rfl)

theorem exists_entry_of_mem_twinPoints (h : m ∈ twinPoints n) :
    ∃ text, (n, text) ∈ sameUpper.toList ∧ twinPoints n = text ∧ m ∈ text := by
  unfold twinPoints at h ⊢
  cases hentry : pointsOf? sameUpper n with
  | none =>
    rw [hentry] at h
    cases h
  | some text =>
    rw [hentry] at h
    exact ⟨text, exists_of_pointsOf? hentry, rfl, h⟩

/-- What is checked of twins. -/
theorem twins_of_mem (h : m ∈ twinPoints n) : n ∈ twinPoints m ∧
    (∀ k ∈ twinPoints m, k = n ∨ k ∈ twinPoints n) ∧
    (n ≠ 0x131 → m ≠ 0x131 → foldPoints m = foldPoints n) := by
  obtain ⟨text, hentry, htext, hm⟩ := exists_entry_of_mem_twinPoints h
  have hchecked := List.all_eq_true.1 tables_checked.2.2.2.2.2.1 _ hentry
  simp only [Bool.and_eq_true, Bool.or_eq_true, List.all_eq_true, List.any_eq_true, Nat.beq_eq,
    beq_iff_eq, exists_eq_right] at hchecked
  obtain ⟨hclosed, hfold⟩ := hchecked
  rw [htext]
  exact ⟨(hclosed m hm).1, (hclosed m hm).2, fun hn hm' =>
    (hfold.resolve_left hn m hm).resolve_left hm'⟩

/-- What is the same as one code point is the same. -/
theorem samePoint_of_same (hn : samePoint n k = true) (hm : samePoint m k = true) :
    samePoint n m = true := by
  rw [samePoint_iff] at hn hm ⊢
  rcases hn with hn | hn <;> rcases hm with hm | hm
  · exact .inl (hm.symm.trans hn)
  · exact .inr (hn ▸ (twins_of_mem hm).1)
  · exact .inr (hm ▸ hn)
  · exact (twins_of_mem hn).2.1 _ (twins_of_mem hm).1

theorem two_le_length {text : List Nat} (h : (n, text) ∈ foldTexts.toList) : 2 ≤ text.length := by
  have hchecked := tables_checked.2.2.2.1
  rw [foldingsAreSame, Bool.and_eq_true] at hchecked
  exact Nat.le_of_ble_eq_true (List.all_eq_true.1 hchecked.2 _ h)

/-- **A code point is the same as its folding,** if that is a single one. -/
theorem samePoint_of_foldPoints (h : foldPoints n = [m]) : samePoint n m = true := by
  obtain htext | ⟨s, hs, hcovers, hfold⟩ | hfold := foldPoints_cases n
  · have hlength := two_le_length htext
    rw [h, List.length_singleton] at hlength
    omega
  · obtain rfl : s.target n = m := by simpa [hfold] using h
    have hchecked := tables_checked.2.2.2.1
    rw [foldingsAreSame, Bool.and_eq_true] at hchecked
    have hshift := List.all_eq_true.1 hchecked.1 s hs
    rw [Bool.or_eq_true, beq_iff_eq] at hshift
    rcases hshift with hzero | hpoints
    · have hstays : s.target n = n := by
        unfold Table.Shift.target
        omega
      rw [hstays]
      exact samePoint_refl n
    · exact List.all_eq_true.1 hpoints n (Table.Shift.mem_points hcovers)
  · obtain rfl : lowerPoint n = m := by simpa [hfold] using h
    exact samePoint_iff.2 (.inl (lowerPoint_lowerPoint n))

theorem samePoint_of_mem_foldTexts {text : List Nat} (hn : (n, text) ∈ foldTexts.toList)
    (hm : (m, text) ∈ foldTexts.toList) : samePoint n m = true := by
  have hchecked := List.all_eq_true.1 (List.all_eq_true.1 tables_checked.2.2.2.2.1 _ hn) _ hm
  simpa using hchecked

/-- **Code points with one folding are the same** for a pattern that ignores case. -/
theorem samePoint_of_foldPoints_eq (h : foldPoints n = foldPoints m) : samePoint n m = true := by
  have hone : ∀ {n m k : Nat}, foldPoints n = foldPoints m → foldPoints n = [k] →
      samePoint n m = true := fun h hk =>
    samePoint_of_same (samePoint_of_foldPoints hk) (samePoint_of_foldPoints (h ▸ hk))
  obtain htext | ⟨s, -, -, hfold⟩ | hfold := foldPoints_cases n
  · obtain htext' | ⟨s, -, -, hfold⟩ | hfold := foldPoints_cases m
    · exact samePoint_of_mem_foldTexts htext (h ▸ htext')
    · exact hone h (h.trans hfold)
    · exact hone h (h.trans hfold)
  · exact hone h hfold
  · exact hone h hfold

/-- **The same code points have one folding,** except for `İ` and `ı`. -/
theorem foldPoints_eq_of_samePoint (hn : n ≠ 0x130 ∧ n ≠ 0x131) (hm : m ≠ 0x130 ∧ m ≠ 0x131)
    (h : samePoint n m = true) : foldPoints n = foldPoints m := by
  have hlower : foldPoints (lowerPoint m) = foldPoints (lowerPoint n) := by
    rcases samePoint_iff.1 h with h | h
    · rw [h]
    · exact (twins_of_mem h).2.2 (mt eq_of_lowerPoint_eq hn.2) (mt eq_of_lowerPoint_eq hm.2)
  rw [← foldPoints_lowerPoint hn.1, ← foldPoints_lowerPoint hm.1, hlower]

/-- **Two characters are the same for a pattern that ignores case exactly if they have one full
folding,** if neither is `İ` or `ı`. -/
theorem foldText_eq_iff {a b : Char} (ha : a ≠ '\u0130' ∧ a ≠ '\u0131')
    (hb : b ≠ '\u0130' ∧ b ≠ '\u0131') :
    foldText a = foldText b ↔ sameIgnoringCase a b = true := by
  have hpoint : ∀ {c : Char}, c ≠ '\u0130' ∧ c ≠ '\u0131' → c.toNat ≠ 0x130 ∧ c.toNat ≠ 0x131 :=
    fun {c} hc => ⟨fun h => hc.1 (toNat_injective h), fun h => hc.2 (toNat_injective h)⟩
  rw [sameIgnoringCase_iff, foldText_eq_iff_points]
  exact ⟨samePoint_of_foldPoints_eq, foldPoints_eq_of_samePoint (hpoint ha) (hpoint hb)⟩

/-! ## Foldings of words -/

/-- A character is steady if its folding has no second word character, and it is neither `İ` nor
`ı`. -/
structure IsSteady (c : Char) : Prop where
  ne_dotted : c ≠ '\u0130'
  ne_dotless : c ≠ '\u0131'
  tail : ∀ d ∈ (foldText c).tail, isWord d = false

theorem marks_checked : (∀ c, isMarkPoint c.toNat = true → isWord c = false) ∧
    (∀ n ∈ targets foldShifts ++ targets lowerShifts, isMarkPoint n = false) ∧
    ∀ e ∈ foldTexts.toList, e.2.head?.any isMarkPoint = false ∧
      ∀ n ∈ e.2.tail, isMarkPoint n = true ∨ isWordPoint n = true := by
  have hchecked := tables_checked.2.2.2.2.2.2.1
  rw [marksStandApart, Bool.and_eq_true, Bool.and_eq_true] at hchecked
  obtain ⟨⟨hapart, htargets⟩, htexts⟩ := hchecked
  refine ⟨fun c hmark => ?_, fun n hn => ?_, fun e he => ?_⟩
  · simp only [isMarkPoint, Bool.and_eq_true, Nat.ble_eq] at hmark
    rw [isWord_eq, isWordPoint, if_neg (by omega)]
    refine List.any_eq_false.2 fun table htable => ?_
    rw [Bool.not_eq_true]
    refine List.any_eq_false.2 fun r hr hmem => ?_
    have hrange := List.all_eq_true.1 (List.all_eq_true.1 hapart table htable) r hr
    simp only [Bool.or_eq_true, Bool.and_eq_true, Nat.blt_eq, Nat.ble_eq] at hrange hmem
    omega
  · simpa using List.all_eq_true.1 htargets n hn
  · simpa using List.all_eq_true.1 htexts e he

/-- What is no mark is folded to something that does not begin with one. -/
theorem exists_foldPoints (h : isMarkPoint n = false) : ∃ m rest, foldPoints n = m :: rest ∧
    isMarkPoint m = false ∧ ∀ k ∈ rest, isMarkPoint k = true ∨ isWordPoint k = true := by
  obtain ⟨-, htargets, htexts⟩ := marks_checked
  have hlower : isMarkPoint (lowerPoint n) = false := by
    obtain hn | ⟨s, hs, hcovers, hn⟩ | ⟨hfirst, hlast, hn⟩ := lowerPoint_cases n
    · rwa [hn]
    · rw [hn]
      exact htargets _ (List.mem_append_right _ (mem_targets hs hcovers))
    · rw [hn, Bool.eq_false_iff, ne_eq, isMarkPoint, Bool.and_eq_true, Nat.ble_eq]
      omega
  obtain htext | ⟨s, hs, hcovers, hfold⟩ | hfold := foldPoints_cases n
  · have hlength := two_le_length htext
    obtain ⟨m, rest, hfold⟩ : ∃ m rest, foldPoints n = m :: rest :=
      List.exists_cons_of_length_pos (by omega)
    obtain ⟨hhead, htail⟩ := htexts _ htext
    rw [hfold] at hhead htail
    exact ⟨m, rest, hfold, hhead, htail⟩
  · exact ⟨_, [], hfold, htargets _ (List.mem_append_left _ (mem_targets hs hcovers)), by simp⟩
  · exact ⟨_, [], hfold, hlower, by simp⟩

/-- **A steady word character is folded to one character and marks behind it.** -/
theorem IsSteady.exists_foldText {c : Char} (h : IsSteady c) (hword : isWord c = true) :
    ∃ d rest, foldText c = d :: rest ∧ isMarkPoint d.toNat = false ∧
      ∀ e ∈ rest, isMarkPoint e.toNat = true := by
  have hmark : isMarkPoint c.toNat = false := by
    rw [Bool.eq_false_iff]
    intro hmark
    rw [marks_checked.1 c hmark] at hword
    cases hword
  obtain ⟨m, rest, hfold, hm, hrest⟩ := exists_foldPoints hmark
  rw [← map_toNat_foldText] at hfold
  obtain ⟨d, more, htext, rfl, rfl⟩ := List.map_eq_cons_iff.1 hfold
  refine ⟨d, more, htext, hm, fun e he => ?_⟩
  refine (hrest e.toNat (List.mem_map_of_mem he)).resolve_right fun hword => ?_
  rw [← isWord_eq, h.tail e (by rwa [htext])] at hword
  cases hword

/-- A piece of a text begins with something outside of a class and goes on within it. -/
def IsPiece {α : Type} (p : α → Bool) (piece : List α) : Prop :=
  ∃ a rest, piece = a :: rest ∧ p a = false ∧ ∀ b ∈ rest, p b = true

theorem takeWhile_flatten_of_isPiece {α : Type} {p : α → Bool} {pieces : List (List α)}
    (h : ∀ piece ∈ pieces, IsPiece p piece) : pieces.flatten.takeWhile p = [] := by
  cases pieces with
  | nil => rfl
  | cons piece pieces =>
    obtain ⟨a, rest, rfl, ha, -⟩ := h piece List.mem_cons_self
    simp [ha]

/-- **A text of pieces can be taken apart.** -/
theorem eq_of_flatten_eq {α : Type} {p : α → Bool} {us vs : List (List α)}
    (hu : ∀ piece ∈ us, IsPiece p piece) (hv : ∀ piece ∈ vs, IsPiece p piece)
    (h : us.flatten = vs.flatten) : us = vs := by
  induction us generalizing vs with
  | nil =>
    cases vs with
    | nil => rfl
    | cons piece vs =>
      obtain ⟨a, rest, rfl, -⟩ := hv piece List.mem_cons_self
      cases h
  | cons piece us ih =>
    obtain ⟨⟨a, rest, rfl, -, hrest⟩, hus⟩ := List.forall_mem_cons.1 hu
    cases vs with
    | nil => cases h
    | cons piece vs =>
      obtain ⟨⟨b, more, rfl, -, hmore⟩, hvs⟩ := List.forall_mem_cons.1 hv
      rw [List.flatten_cons, List.flatten_cons, List.cons_append, List.cons_append] at h
      obtain ⟨rfl, htail⟩ := List.cons.inj h
      have hsame : rest = more := by
        have hwhile := congrArg (List.takeWhile p) htail
        rwa [List.takeWhile_append_of_pos hrest, List.takeWhile_append_of_pos hmore,
          takeWhile_flatten_of_isPiece hus, takeWhile_flatten_of_isPiece hvs, List.append_nil,
          List.append_nil] at hwhile
      subst hsame
      rw [ih hus hvs (List.append_cancel_left htail)]

theorem forall₂_congr_of_mem {α β : Type} {R S : α → β → Prop} {u : List α} {v : List β}
    (h : ∀ a ∈ u, ∀ b ∈ v, R a b ↔ S a b) : List.Forall₂ R u v ↔ List.Forall₂ S u v := by
  induction u generalizing v with
  | nil => cases v <;> simp
  | cons a u ih =>
    cases v with
    | nil => simp
    | cons b v =>
      rw [List.forall₂_cons, List.forall₂_cons, h a List.mem_cons_self b List.mem_cons_self,
        ih fun a ha b hb => h a (List.mem_cons_of_mem _ ha) b (List.mem_cons_of_mem _ hb)]

/-- **Words of steady characters have one folding exactly if their characters are the same, one by
one,** for a pattern that ignores case. -/
theorem flatMap_foldText_eq_iff {u v : List Char} (hu : ∀ c ∈ u, isWord c = true ∧ IsSteady c)
    (hv : ∀ c ∈ v, isWord c = true ∧ IsSteady c) : u.flatMap foldText = v.flatMap foldText ↔
      List.Forall₂ (fun a b => sameIgnoringCase a b = true) u v := by
  have hpieces : ∀ {w : List Char}, (∀ c ∈ w, isWord c = true ∧ IsSteady c) →
      ∀ piece ∈ w.map foldText, IsPiece (isMarkPoint ·.toNat) piece := by
    intro w hw piece hpiece
    obtain ⟨c, hc, rfl⟩ := List.mem_map.1 hpiece
    exact (hw c hc).2.exists_foldText (hw c hc).1
  have hmaps : u.flatMap foldText = v.flatMap foldText ↔ u.map foldText = v.map foldText := by
    rw [List.flatMap_def, List.flatMap_def]
    exact ⟨eq_of_flatten_eq (hpieces hu) (hpieces hv), congrArg List.flatten⟩
  have hdots : ∀ {c}, IsSteady c → c ≠ '\u0130' ∧ c ≠ '\u0131' := fun h =>
    ⟨h.ne_dotted, h.ne_dotless⟩
  rw [hmaps, ← List.forall₂_eq_eq_eq, List.forall₂_map_left_iff, List.forall₂_map_right_iff]
  exact forall₂_congr_of_mem fun a ha b hb =>
    foldText_eq_iff (hdots (hu a ha).2) (hdots (hv b hb).2)

/-! ## Characters that are not steady -/

theorem of_isSteadyPoint {n : Nat} (h : isSteadyPoint n = true) : (Char.ofNat n).toNat = n ∧
    isWord (Char.ofNat n) = true ∧ IsSteady (Char.ofNat n) := by
  simp only [isSteadyPoint, Bool.and_eq_true, Bool.not_eq_true', ← Bool.not_eq_true, Nat.beq_eq,
    List.all_eq_true] at h
  obtain ⟨⟨⟨⟨hplain, hword⟩, htail⟩, hdotted⟩, hdotless⟩ := h
  have hpoint := toNat_ofNat hplain
  refine ⟨hpoint, by rwa [isWord_eq, hpoint], ⟨fun hc => ?_, fun hc => ?_, fun d hd => ?_⟩⟩
  · exact hdotted (hpoint.symm.trans (congrArg Char.toNat hc))
  · exact hdotless (hpoint.symm.trans (congrArg Char.toNat hc))
  · refine marks_checked.1 d (htail d.toNat ?_)
    rw [← hpoint, ← map_toNat_foldText, ← List.map_tail]
    exact List.mem_map_of_mem hd

/-- A character with more than one character in its folding has only marks behind the first, or the
folding of a word of steady characters. -/
theorem tail_or_exists_word {c : Char} (h : (c.toNat, foldPoints c.toNat) ∈ foldTexts.toList) :
    (∀ d ∈ (foldText c).tail, isWord d = false) ∨ ∃ w : List Char, 2 ≤ w.length ∧
      w.flatMap foldText = foldText c ∧ ∀ d ∈ w, isWord d = true ∧ IsSteady d := by
  have hchecked := tables_checked.2.2.2.2.2.2.2
  simp only [partsFit, Bool.and_eq_true] at hchecked
  have hentry := List.all_eq_true.1 hchecked.1.1 _ h
  simp only [Bool.or_eq_true, Bool.and_eq_true, Nat.ble_eq, beq_iff_eq, List.all_eq_true] at hentry
  rcases hentry with hmarks | ⟨⟨hlength, hparts⟩, hsteady⟩
  · refine .inl fun d hd => marks_checked.1 d (hmarks d.toNat ?_)
    rw [← map_toNat_foldText, ← List.map_tail]
    exact List.mem_map_of_mem hd
  · refine .inr ⟨(partsOf (c.toNat, foldPoints c.toNat)).map Char.ofNat, by simpa using hlength,
      List.map_injective_iff.2 toNat_injective ?_, fun d hd => ?_⟩
    · rw [map_toNat_foldText, List.map_flatMap, List.flatMap_map]
      refine Eq.trans (List.flatMap_congr fun n hn => ?_) hparts
      rw [map_toNat_foldText, (of_isSteadyPoint (hsteady n hn)).1]
    · obtain ⟨n, hn, rfl⟩ := List.mem_map.1 hd
      exact (of_isSteadyPoint (hsteady n hn)).2

/-- The letter `i` is the same as `İ` and `ı` for a pattern, and its folding is another one. -/
theorem dots_apart {c : Char} (h : c = '\u0130' ∨ c = '\u0131') : IsSteady 'i' ∧
    sameIgnoringCase 'i' c = true ∧ foldText 'i' ≠ foldText c := by
  have hchecked := tables_checked.2.2.2.2.2.2.2
  simp only [partsFit, Bool.and_eq_true, List.all_eq_true] at hchecked
  have hmem : c.toNat ∈ [0x130, 0x131] := by
    rcases h with rfl | rfl
    · exact List.mem_cons_self
    · exact List.mem_cons_of_mem _ List.mem_cons_self
  obtain ⟨hsame, hfold⟩ := hchecked.2 _ hmem
  refine ⟨(of_isSteadyPoint hchecked.1.2).2.2, sameIgnoringCase_iff.2 hsame, fun heq => ?_⟩
  have hpoints : foldPoints 0x69 = foldPoints c.toNat := foldText_eq_iff_points.1 heq
  rw [← hpoints] at hfold
  cases hfold

/-- **No other character will do:** one that is not steady makes a difference between having one
folding and being the same, one by one, with steady characters beside it. -/
theorem exists_of_not_isSteady {c : Char} (hword : isWord c = true) (h : ¬ IsSteady c) :
    ∃ k w : List Char, k ≠ [] ∧ w ≠ [] ∧
      (∀ d ∈ k ++ w, isWord d = true ∧ (IsSteady d ∨ d = c)) ∧
      ¬ (List.Forall₂ (fun a b => sameIgnoringCase a b = true) k w ↔
        k.flatMap foldText = w.flatMap foldText) := by
  by_cases hdots : c = '\u0130' ∨ c = '\u0131'
  · obtain ⟨hsteady, hsame, hfold⟩ := dots_apart hdots
    refine ⟨['i'], [c], List.cons_ne_nil _ _, List.cons_ne_nil _ _, ?_, fun hiff => hfold ?_⟩
    · simp [hword, hsteady, (by decide : isWord 'i' = true)]
    · simpa using hiff.1 (.cons hsame .nil)
  · obtain ⟨hdotted, hdotless⟩ := not_or.1 hdots
    have htail : ¬ ∀ d ∈ (foldText c).tail, isWord d = false := fun htail =>
      h ⟨hdotted, hdotless, htail⟩
    have hentry : (c.toNat, foldPoints c.toNat) ∈ foldTexts.toList := by
      refine (foldPoints_cases c.toNat).resolve_right fun hone => htail ?_
      obtain ⟨n, hn⟩ : ∃ n, (foldText c).map Char.toNat = [n] := by
        rw [map_toNat_foldText]
        obtain ⟨s, -, -, hs⟩ | hs := hone
        · exact ⟨_, hs⟩
        · exact ⟨_, hs⟩
      obtain ⟨d, hd, -⟩ := List.map_eq_singleton_iff.1 hn
      simp [hd]
    obtain ⟨w, hlength, hfold, hsteady⟩ := (tail_or_exists_word hentry).resolve_left htail
    refine ⟨[c], w, List.cons_ne_nil _ _, ?_, ?_, fun hiff => ?_⟩
    · rintro rfl
      exact absurd hlength (by decide)
    · intro d hd
      rcases List.mem_append.1 hd with hd | hd
      · obtain rfl := List.mem_singleton.1 hd
        exact ⟨hword, .inr rfl⟩
      · exact (hsteady d hd).imp_right .inl
    · have hone := (hiff.2 (by simpa using hfold.symm)).length_eq
      rw [← hone] at hlength
      exact absurd hlength (by simp)

end Text
end DocHighlighter
