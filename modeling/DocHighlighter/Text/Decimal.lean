/-
# Whole numbers in decimal digits

A number is written in the decimal digits of any scripts, with one underscore
between two digits if wanted, a sign in front of it and white space around it.
Where there are more digits than the limit it is not read.
-/

import DocHighlighter.Text.Lines

namespace DocHighlighter
namespace Text

/-- How many digits of a number are read at most. -/
def digitLimit : Nat := 4300

/-- The value of a decimal digit of any script; the digits of a script stand in order. -/
def decimalValue? (c : Char) : Option Nat :=
  if c.toNat < 0x80 then if c.isDigit then some (c.toNat - '0'.toNat) else none
  else (Table.decimalDigits.find? fun r => r.1 ≤ c.toNat && c.toNat ≤ r.2).map fun r =>
    (c.toNat - r.1) % 10

/-- The values of some digits, with one underscore at most between two of them. -/
def decimalValues? : List Char → Option (List Nat)
  | [] => none
  | [c] => (decimalValue? c).map ([·])
  | c :: '_' :: rest => do return (← decimalValue? c) :: (← decimalValues? rest)
  | c :: rest => do return (← decimalValue? c) :: (← decimalValues? rest)

/-- White space around a number; the information separators are none. -/
def isNumberMargin (c : Char) : Bool :=
  isBlank c && !(0x1c ≤ c.toNat && c.toNat ≤ 0x1f)

/-- The number that a text writes, unless it is below zero. -/
def wholeNumber? (text : List Char) : Option Nat := do
  let (negative, digits) :=
    match stripEnds isNumberMargin text with
    | '-' :: digits => (true, digits)
    | '+' :: digits => (false, digits)
    | digits => (false, digits)
  let values ← decimalValues? digits
  let number := values.foldl (fun n d => n * 10 + d) 0
  if digitLimit < values.length || (negative && number != 0) then none else some number

end Text
end DocHighlighter
