/-
# Sets in written patterns

A set stands between brackets: characters, ranges and categories.  A bracket
that comes first is a member, and so is a dash that comes last.
-/

import DocHighlighter.Pattern.Reading.Escape

namespace DocHighlighter
namespace Pattern

open Reader

/-- What one sign of a set stands for: a category, or the code of a character. -/
inductive SetSign where
  | category (i : SetItem)
  | code (n : Nat)

/-- Reads what follows a backslash inside a set. -/
def readSetEscape (c : Char) : Reader SetSign := do
  if c == 'b' then return .code 8
  if let some n := controlEscape? c then return .code n
  if let some i := categoryEscape? c then return .category i
  if c == 'x' then return .code (← readHex c 2)
  if c == 'u' then return .code (← readHex c 4)
  if c == 'U' then return .code (← readHex c 8)
  if c == 'N' then return .code (← readCharacterName)
  if Text.isOctDigit c then
    return .code (← octal (c :: (← takeWhile Text.isOctDigit 2)))
  if c.isAlphanum then refuseEscape c
  return .code c.toNat

/-- The meaning of a sign of a set. -/
def readSetSign : Sign → Reader SetSign
  | .char c => return .code c.toNat
  | .escape c => readSetEscape c
  | .dangling => return .code 92

/-- The members of a set that a sign of its own stands for. -/
def SetSign.items : SetSign → List SetItem
  | .category i => [i]
  | .code n => (codeRange? n n).toList

/-- Reads the members of a set that was opened at `start`, up to its bracket. -/
def readSetItems (start : Nat) : (fuel : Nat) → (first : Bool) → List SetItem →
    Reader (List SetItem)
  | 0, _, items => return items
  | fuel + 1, first, items => do
    let unterminated {α : Type} : Reader α := do
      refuse .unterminatedSet ((← position) - start)
    let some this ← take | unterminated
    if this == .char ']' && !first then return items
    let lo ← readSetSign this
    if ← takeIf '-' then
      let some that ← take | unterminated
      if that == .char ']' then
        return items ++ lo.items ++ [.single '-']
      let hi ← readSetSign that
      let bad {α : Type} : Reader α :=
        refuse (.badRange (String.ofList this.written) (String.ofList that.written))
          (this.written.length + 1 + that.written.length)
      match lo, hi with
      | .code lo, .code hi =>
        if hi < lo then bad
        readSetItems start fuel false (items ++ (codeRange? lo hi).toList)
      | _, _ => bad
    else
      readSetItems start fuel false (items ++ lo.items)

/-- Reads a set whose opening bracket has been taken. -/
def readSet : Reader Expr := do
  let start := (← position) - 1
  let negated ← takeIf '^'
  let items ← readSetItems start ((← left) + 1) true []
  return .oneOf negated items

end Pattern
end DocHighlighter
