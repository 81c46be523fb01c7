/-
# Escapes in written patterns

What a backslash and the signs after it stand for, outside a set: an anchor, a
category, a character by its name or code, or a reference to a group.
-/

import DocHighlighter.Pattern.Reading

namespace DocHighlighter
namespace Pattern

open Reader

/-- Whether a number is the code of a character. -/
def isCode (n : Nat) : Bool :=
  n < 0xd800 || (0xdfff < n && n < 0x110000)

/-- The expression for the character of a code; half of a surrogate pair never matches. -/
def codeExpr (n : Nat) : Expr :=
  if isCode n then .char (Char.ofNat n) else .oneOf false []

/-- The member of a set for a range of codes, if it holds any character. -/
def codeRange? (lo hi : Nat) : Option SetItem :=
  let lo := if isCode lo then lo else 0xe000
  let hi := if isCode hi then hi else 0xd7ff
  if lo == hi then some (.single (Char.ofNat lo))
  else if lo < hi then some (.range (Char.ofNat lo) (Char.ofNat hi))
  else none

/-- The control characters that a letter after a backslash stands for. -/
def controlEscape? : Char → Option Nat
  | 'a' => some 7
  | 'f' => some 12
  | 'n' => some 10
  | 'r' => some 13
  | 't' => some 9
  | 'v' => some 11
  | '\\' => some 92
  | _ => none

/-- The category that a letter after a backslash stands for. -/
def categoryEscape? : Char → Option SetItem
  | 'd' => some (.category .digit false)
  | 'D' => some (.category .digit true)
  | 's' => some (.category .blank false)
  | 'S' => some (.category .blank true)
  | 'w' => some (.category .word false)
  | 'W' => some (.category .word true)
  | _ => none

/-- The anchor that a letter after a backslash stands for. -/
def anchorEscape? : Char → Option Anchor
  | 'A' => some .textStart
  | 'Z' => some .textEnd
  | 'b' => some .wordEdge
  | 'B' => some .notWordEdge
  | _ => none

/-- Reads exactly `n` hexadecimal digits after an escape letter. -/
def readHex (letter : Char) (n : Nat) : Reader Nat := do
  let digits ← takeWhile Text.isHexDigit n
  let written := '\\' :: letter :: digits
  if digits.length != n then refuse (.incompleteEscape (String.ofList written)) written.length
  let code := Text.digitsValue 16 digits
  if 0x110000 ≤ code then refuse (.badEscape (String.ofList written)) written.length
  return code

/-- Reads the name of a character, of which none is known. -/
def readCharacterName : Reader Nat := do
  if !(← takeIf '\x7b') then refuse .missingBrace
  let name ← takeName '\x7d' "character name"
  refuse (.unknownCharacterName (String.ofList name)) (name.length + 4)

/-- Refuses an escape of one character. -/
def refuseEscape {α : Type} (c : Char) : Reader α :=
  refuse (.badEscape (String.ofList ['\\', c])) 2

/-- Checks the value of an octal escape. -/
def octal (digits : List Char) : Reader Nat := do
  let code := Text.digitsValue 8 digits
  if 0o377 < code then
    refuse (.octalTooLarge (String.ofList ('\\' :: digits))) (digits.length + 1)
  return code

/-- Reads a reference to a group, or an octal escape of three digits. -/
def readReference (c : Char) : Reader Expr := do
  let mut digits := [c]
  if let some (.char d) ← peek then
    if d.isDigit then
      let _ ← take
      digits := [c, d]
      if Text.isOctDigit c && Text.isOctDigit d then
        if let some (.char e) ← peek then
          if Text.isOctDigit e then
            let _ ← take
            return codeExpr (← octal [c, d, e])
  let group := Text.digitsValue 10 digits
  if group ≤ (← groupCount) then
    if !(← isClosed group) then refuse .openReference (digits.length + 1)
    checkBehind group
    return .backref group
  refuse (.invalidReference group) digits.length

/-- Reads what follows a backslash outside a set. -/
def readEscape (c : Char) : Reader Item := do
  if let some a := anchorEscape? c then return ⟨.anchor a, .anchor⟩
  if let some i := categoryEscape? c then return ⟨.oneOf false [i], .plain⟩
  if let some n := controlEscape? c then return ⟨codeExpr n, .plain⟩
  if c == 'x' then return ⟨codeExpr (← readHex c 2), .plain⟩
  if c == 'u' then return ⟨codeExpr (← readHex c 4), .plain⟩
  if c == 'U' then return ⟨codeExpr (← readHex c 8), .plain⟩
  if c == 'N' then return ⟨codeExpr (← readCharacterName), .plain⟩
  if c == '0' then
    let digits ← takeWhile Text.isOctDigit 2
    return ⟨codeExpr (Text.digitsValue 8 digits), .plain⟩
  if c.isDigit then return ⟨← readReference c, .plain⟩
  if c.isAlpha then refuseEscape c
  return ⟨.char c, .plain⟩

end Pattern
end DocHighlighter
