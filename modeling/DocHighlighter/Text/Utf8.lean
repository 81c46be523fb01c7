/-
# Texts as bytes

Texts are kept in files as UTF-8.  `encode` writes a text, `decode` reads one.
Bytes that are no text are told with their place: which byte cannot start a
character, which does not continue one, or that the end comes too early.
-/

namespace DocHighlighter
namespace Utf8

/-- What is wrong with bytes. -/
inductive Reason where
  | start
  | continuation
  | ending
  deriving DecidableEq

/-- Bytes that are no text: how many bytes are before them, the first of them, and how many they
are. -/
structure Fault where
  position : Nat
  byte : UInt8
  count : Nat
  reason : Reason
  deriving DecidableEq

/-- What is wrong, in words. -/
def Reason.message : Reason → String
  | start => "invalid start byte"
  | continuation => "invalid continuation byte"
  | ending => "unexpected end of data"

/-- Two hexadecimal digits for a byte. -/
def hexByte (b : UInt8) : String :=
  let digits := Nat.toDigits 16 b.toNat
  String.ofList (if digits.length < 2 then '0' :: digits else digits)

/-- The message about bytes that are no text. -/
def Fault.message (f : Fault) : String :=
  "'utf-8' codec can't decode " ++
    (if f.count ≤ 1 then "byte 0x" ++ hexByte f.byte ++ " in position " ++ toString f.position
     else "bytes in position " ++ toString f.position ++ "-" ++
       toString (f.position + f.count - 1)) ++
    ": " ++ f.reason.message

/-- Whether a byte continues a character. -/
def isContinuation (b : UInt8) : Bool :=
  0x80 ≤ b.toNat && b.toNat < 0xc0

/-- The number that the first byte of a character holds, how many bytes continue it, and the
smallest and greatest second byte. -/
def leading? (b : UInt8) : Option (Nat × Nat × Nat × Nat) :=
  let n := b.toNat
  if n < 0xc2 then none
  else if n < 0xe0 then some (n - 0xc0, 1, 0x80, 0xbf)
  else if n < 0xf0 then
    some (n - 0xe0, 2, if n == 0xe0 then 0xa0 else 0x80, if n == 0xed then 0x9f else 0xbf)
  else if n < 0xf5 then
    some (n - 0xf0, 3, if n == 0xf0 then 0x90 else 0x80, if n == 0xf4 then 0x8f else 0xbf)
  else none

/-- The number that continuing bytes complete, with the number of bytes still to come; or how
many bytes were good, and what is wrong with the next. -/
def continued : Nat → Nat → List UInt8 → Except (Nat × Reason) Nat
  | 0, value, _ => .ok value
  | _ + 1, _, [] => .error (0, .ending)
  | n + 1, value, b :: rest =>
    if isContinuation b then
      match continued n (value * 0x40 + (b.toNat - 0x80)) rest with
      | .ok v => .ok v
      | .error (good, reason) => .error (good + 1, reason)
    else .error (0, .continuation)

/-- The character whose first byte is given, and how many bytes continue it. -/
def charAt (position : Nat) (b : UInt8) (rest : List UInt8) : Except Fault (Char × Nat) :=
  if b.toNat < 0x80 then .ok (Char.ofNat b.toNat, 0)
  else
    match leading? b with
    | none => .error ⟨position, b, 1, .start⟩
    | some (value, count, least, greatest) =>
      let fits := match rest with
        | [] => true
        | second :: _ => least ≤ second.toNat && second.toNat ≤ greatest
      if !fits then .error ⟨position, b, 1, .continuation⟩
      else
        match continued count value rest with
        | .ok v => .ok (Char.ofNat v, count)
        | .error (good, reason) => .error ⟨position, b, good + 1, reason⟩

/-- Reads the text that bytes are, the characters so far given backwards; `skip` bytes are known
to continue the character before. -/
def decodeFrom (position skip : Nat) (read : List Char) : List UInt8 → Except Fault (List Char)
  | [] => .ok read.reverse
  | b :: rest =>
    match skip with
    | n + 1 => decodeFrom (position + 1) n read rest
    | 0 =>
      match charAt position b rest with
      | .ok (c, count) => decodeFrom (position + 1) count (c :: read) rest
      | .error fault => .error fault

/-- Reads the text that bytes are. -/
def decode (bytes : List UInt8) : Except Fault (List Char) :=
  decodeFrom 0 0 [] bytes

/-- The bytes of a character. -/
def encodeChar (c : Char) : List UInt8 :=
  let n := c.toNat
  let tail (k : Nat) : UInt8 := UInt8.ofNat (0x80 + n / Nat.pow 0x40 k % 0x40)
  if n < 0x80 then [UInt8.ofNat n]
  else if n < 0x800 then [UInt8.ofNat (0xc0 + n / 0x40), tail 0]
  else if n < 0x10000 then [UInt8.ofNat (0xe0 + n / 0x1000), tail 1, tail 0]
  else [UInt8.ofNat (0xf0 + n / 0x40000), tail 2, tail 1, tail 0]

/-- Writes a text as bytes. -/
def encode (text : List Char) : List UInt8 :=
  text.flatMap encodeChar

end Utf8
end DocHighlighter
