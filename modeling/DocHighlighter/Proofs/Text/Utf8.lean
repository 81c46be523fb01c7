/-
# Texts in bytes and back

What is written as bytes is read as the text that it was (`Utf8.decode_encode`).  A character is
one to four bytes: the first says how many continue it and holds the highest part of its number,
each of the others holds six bits (`Utf8.charAt_encodeChar`).  Reading goes over the bytes that
continue a character (`Utf8.decodeFrom_skip`), so a text follows by induction.

A text of ASCII characters has one byte for each character, and that byte is the code of
the character.  So its characters can be had from its bytes (`Text.chars_eq`), which takes
as many steps as it has bytes.
-/

import DocHighlighter.Text.Utf8
import Mathlib.Data.List.Basic

namespace DocHighlighter
namespace Utf8

theorem toNat_ofNat {n : Nat} (h : n < 0x100) : (UInt8.ofNat n).toNat = n :=
  UInt8.toNat_ofNat_of_lt' h

/-- A byte that continues a character holds six bits. -/
def tailByte (bits : Nat) : UInt8 :=
  UInt8.ofNat (0x80 + bits)

theorem toNat_tailByte {bits : Nat} (h : bits < 0x40) : (tailByte bits).toNat = 0x80 + bits :=
  toNat_ofNat (by omega)

theorem continued_tailByte {bits n value v : Nat} {rest : List UInt8} (h : bits < 0x40)
    (hrest : continued n (value * 0x40 + bits) rest = .ok v) :
    continued (n + 1) value (tailByte bits :: rest) = .ok v := by
  have hbyte := toNat_tailByte h
  have hcontinues : isContinuation (tailByte bits) = true := by
    simp only [isContinuation, hbyte, Bool.and_eq_true, decide_eq_true_eq]
    omega
  rw [continued, if_pos hcontinues, hbyte, Nat.add_sub_cancel_left, hrest]

/-- What a first byte says is what is read, if the second byte fits and the rest continues it. -/
theorem charAt_of_leading? {position v value count least greatest : Nat} {b second : UInt8}
    {rest : List UInt8} (hb : 0x80 ≤ b.toNat)
    (hleading : leading? b = some (value, count, least, greatest))
    (hfits : least ≤ second.toNat ∧ second.toNat ≤ greatest)
    (hrest : continued count value (second :: rest) = .ok v) :
    charAt position b (second :: rest) = .ok (Char.ofNat v, count) := by
  have hsecond : (decide (least ≤ second.toNat) && decide (second.toNat ≤ greatest)) = true := by
    simpa using hfits
  rw [charAt, if_neg (by omega), hleading]
  simp only [hsecond, hrest, Bool.not_true, Bool.false_eq_true, if_false]

/-- Numbers of characters are not those of surrogates, and not too great. -/
theorem toNat_bounds (c : Char) :
    c.toNat < 0xd800 ∨ 0xdfff < c.toNat ∧ c.toNat < 0x110000 :=
  c.valid

variable {n : Nat} (position : Nat) (rest : List UInt8)

theorem charAt_two (h : 0x80 ≤ n) (h' : n < 0x800) :
    charAt position (UInt8.ofNat (0xc0 + n / 0x40)) (tailByte (n % 0x40) :: rest) =
      .ok (Char.ofNat n, 1) := by
  have hb : (UInt8.ofNat (0xc0 + n / 0x40)).toNat = 0xc0 + n / 0x40 := toNat_ofNat (by omega)
  have hsecond : (tailByte (n % 0x40)).toNat = 0x80 + n % 0x40 := toNat_tailByte (by omega)
  have hleading : leading? (UInt8.ofNat (0xc0 + n / 0x40)) = some (n / 0x40, 1, 0x80, 0xbf) := by
    rw [leading?, hb, if_neg (by omega), if_pos (by omega), Nat.add_sub_cancel_left]
  refine charAt_of_leading? (by omega) hleading (by omega) (continued_tailByte (by omega) ?_)
  rw [continued]
  congr 1
  omega

theorem charAt_three (h : 0x800 ≤ n) (h' : n < 0x10000) (hbounds : n < 0xd800 ∨ 0xdfff < n) :
    charAt position (UInt8.ofNat (0xe0 + n / 0x1000))
        (tailByte (n / 0x40 % 0x40) :: tailByte (n % 0x40) :: rest) =
      .ok (Char.ofNat n, 2) := by
  have hb : (UInt8.ofNat (0xe0 + n / 0x1000)).toNat = 0xe0 + n / 0x1000 := toNat_ofNat (by omega)
  have hsecond : (tailByte (n / 0x40 % 0x40)).toNat = 0x80 + n / 0x40 % 0x40 :=
    toNat_tailByte (by omega)
  have hleading : leading? (UInt8.ofNat (0xe0 + n / 0x1000)) =
      some (n / 0x1000, 2, if 0xe0 + n / 0x1000 = 0xe0 then 0xa0 else 0x80,
        if 0xe0 + n / 0x1000 = 0xed then 0x9f else 0xbf) := by
    rw [leading?, hb, if_neg (by omega), if_neg (by omega), if_pos (by omega),
      Nat.add_sub_cancel_left]
    simp only [beq_iff_eq]
  refine charAt_of_leading? (by omega) hleading ⟨?_, ?_⟩
    (continued_tailByte (by omega) (continued_tailByte (by omega) ?_))
  · split <;> omega
  · split <;> omega
  · rw [continued]
    congr 1
    omega

theorem charAt_four (h : 0x10000 ≤ n) (h' : n < 0x110000) :
    charAt position (UInt8.ofNat (0xf0 + n / 0x40000))
        (tailByte (n / 0x1000 % 0x40) :: tailByte (n / 0x40 % 0x40) :: tailByte (n % 0x40) ::
          rest) = .ok (Char.ofNat n, 3) := by
  have hb : (UInt8.ofNat (0xf0 + n / 0x40000)).toNat = 0xf0 + n / 0x40000 :=
    toNat_ofNat (by omega)
  have hsecond : (tailByte (n / 0x1000 % 0x40)).toNat = 0x80 + n / 0x1000 % 0x40 :=
    toNat_tailByte (by omega)
  have hleading : leading? (UInt8.ofNat (0xf0 + n / 0x40000)) =
      some (n / 0x40000, 3, if 0xf0 + n / 0x40000 = 0xf0 then 0x90 else 0x80,
        if 0xf0 + n / 0x40000 = 0xf4 then 0x8f else 0xbf) := by
    rw [leading?, hb, if_neg (by omega), if_neg (by omega), if_neg (by omega), if_pos (by omega),
      Nat.add_sub_cancel_left]
    simp only [beq_iff_eq]
  refine charAt_of_leading? (by omega) hleading ⟨?_, ?_⟩ (continued_tailByte (by omega)
    (continued_tailByte (by omega) (continued_tailByte (by omega) ?_)))
  · split <;> omega
  · split <;> omega
  · rw [continued]
    congr 1
    omega

/-- **The first byte of a character and those that continue it say all of it.** -/
theorem charAt_encodeChar (c : Char) :
    ∃ b bytes, encodeChar c = b :: bytes ∧
      charAt position b (bytes ++ rest) = .ok (c, bytes.length) := by
  have hbounds := toNat_bounds c
  have hc := Char.ofNat_toNat c
  generalize hn : c.toNat = n at hbounds hc
  have hone : n / Nat.pow 0x40 0 = n := Nat.div_one n
  subst hc
  unfold encodeChar
  simp only [hn, hone]
  split
  · next hlt =>
    have hb : (UInt8.ofNat n).toNat = n := toNat_ofNat (by omega)
    exact ⟨_, [], rfl, by rw [charAt, hb, if_pos hlt]; rfl⟩
  · split
    · exact ⟨_, [_], rfl, charAt_two position rest (by omega) (by omega)⟩
    · split
      · exact ⟨_, [_, _], rfl, charAt_three position rest (by omega) (by omega) (by omega)⟩
      · exact ⟨_, [_, _, _], rfl, charAt_four position rest (by omega) (by omega)⟩

/-- Reading goes over the bytes that continue a character. -/
theorem decodeFrom_skip (bytes : List UInt8) (read : List Char) :
    decodeFrom position bytes.length read (bytes ++ rest) =
      decodeFrom (position + bytes.length) 0 read rest := by
  induction bytes generalizing position with
  | nil => rfl
  | cons b bytes ih =>
    rw [List.cons_append, List.length_cons, decodeFrom, ih, Nat.add_right_comm, Nat.add_assoc]

theorem decodeFrom_encode (text read : List Char) :
    decodeFrom position 0 read (encode text) = .ok (read.reverse ++ text) := by
  induction text generalizing position read with
  | nil => rw [List.append_nil]; rfl
  | cons c text ih =>
    obtain ⟨b, bytes, hbytes, hc⟩ := charAt_encodeChar position (encode text) c
    have hencode : encode (c :: text) = b :: (bytes ++ encode text) := by
      rw [encode, List.flatMap_cons, hbytes, List.cons_append]
      rfl
    rw [hencode, decodeFrom, hc]
    dsimp only
    rw [decodeFrom_skip, ih, List.reverse_cons, List.append_assoc, List.singleton_append]

/-- **What is written as bytes is read as it was.** -/
theorem decode_encode (text : List Char) : decode (encode text) = .ok text :=
  decodeFrom_encode 0 text []

end Utf8

/-! ## Texts of ASCII characters -/

namespace Text

/-- The bytes of a text. -/
def bytesOf (s : String) : List UInt8 :=
  s.toByteArray.data.toList

/-- The characters that have the given bytes as their codes. -/
def ofBytes (bytes : List UInt8) : List Char :=
  bytes.map fun b => Char.ofNat b.toNat

/-- Whether bytes are those of ASCII characters. -/
def isAscii (bytes : List UInt8) : Bool :=
  bytes.all fun b => b.toNat ≤ 127

/-- The characters of a text, from its bytes if it has ASCII characters only. -/
def chars (s : String) : List Char :=
  if isAscii (bytesOf s) then ofBytes (bytesOf s) else s.toList

/-- A character that is encoded by bytes of ASCII characters has its code as its only byte. -/
theorem ofBytes_utf8EncodeChar {c : Char} (h : isAscii (String.utf8EncodeChar c)) :
    ofBytes (String.utf8EncodeChar c) = [c] := by
  unfold String.utf8EncodeChar at h ⊢
  dsimp only at h ⊢
  split at h
  · next hsmall =>
    rw [if_pos hsmall]
    have hcode : (UInt8.ofNat c.val.toNat).toNat = c.toNat := by
      rw [UInt8.toNat_ofNat']
      exact Nat.mod_eq_of_lt (by omega)
    rw [ofBytes, List.map_singleton, hcode, Char.ofNat_toNat]
  · -- every longer encoding ends in a byte of `128` or more
    split at h
    · simp [isAscii] at h
      omega
    · split at h <;>
        · simp [isAscii] at h
          omega

theorem ofBytes_flatMap {cs : List Char} (h : isAscii (cs.flatMap String.utf8EncodeChar)) :
    ofBytes (cs.flatMap String.utf8EncodeChar) = cs := by
  induction cs with
  | nil => rfl
  | cons c rest ih =>
    rw [List.flatMap_cons, isAscii, List.all_append, Bool.and_eq_true] at h
    have hfirst := ofBytes_utf8EncodeChar h.1
    have hrest := ih h.2
    unfold ofBytes at hfirst hrest ⊢
    rw [List.flatMap_cons, List.map_append, hfirst, hrest]
    rfl

/-- **The characters of a text are those that its bytes stand for.** -/
theorem chars_eq (s : String) : chars s = s.toList := by
  have hbytes : bytesOf s = s.toList.flatMap String.utf8EncodeChar := by
    have hs := congrArg bytesOf (String.ofList_toList (s := s)).symm
    rw [hs, bytesOf, String.toByteArray_ofList, List.utf8Encode, List.toList_data_toByteArray]
  unfold chars
  split
  · next h =>
    rw [hbytes] at h ⊢
    exact ofBytes_flatMap h
  · rfl

end Text
end DocHighlighter
