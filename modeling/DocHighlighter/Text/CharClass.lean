/-
# Classes of characters

| class | members |
|---|---|
| blank | white space, and the four information separators U+001C to U+001F |
| digit | decimal digits of any script |
| word | letters, digits, other numbers and the underscore |
| printable | what a quoted text shows as it is |
| name start, name part | what an identifier begins and goes on with |

ASCII is decided by arithmetic, all else by the tables of Unicode 14.
-/

import DocHighlighter.Text.Table.Letter
import DocHighlighter.Text.Table.Number
import DocHighlighter.Text.Table.Printable

namespace DocHighlighter
namespace Text

/-- Whether `c` lies in one of the inclusive ranges of a table. -/
def inRanges (table : Array (Nat × Nat)) (c : Char) : Bool :=
  table.any fun r => r.1 ≤ c.toNat && c.toNat ≤ r.2

/-- White space in the wide sense: the white space of Unicode and U+001C to U+001F. -/
def isBlank (c : Char) : Bool :=
  let n := c.toNat
  (9 ≤ n && n ≤ 13) || (0x1c ≤ n && n ≤ 0x20) || n == 0x85 || n == 0xa0 || n == 0x1680 ||
    (0x2000 ≤ n && n ≤ 0x200a) || n == 0x2028 || n == 0x2029 || n == 0x202f || n == 0x205f ||
    n == 0x3000

/-- The white space of a markup attribute: space, tab, newline, form feed and return. -/
def isMarkupBlank (c : Char) : Bool :=
  c == ' ' || c == '\t' || c == '\n' || c == '\x0c' || c == '\r'

/-- A letter of any script. -/
def isLetter (c : Char) : Bool :=
  if c.toNat < 0x80 then c.isAlpha else inRanges Table.letters c

/-- A decimal digit of any script. -/
def isDigit (c : Char) : Bool :=
  if c.toNat < 0x80 then c.isDigit else inRanges Table.decimalDigits c

/-- A letter, a number of any kind, or the underscore. -/
def isWord (c : Char) : Bool :=
  if c.toNat < 0x80 then c.isAlphanum || c == '_'
  else inRanges Table.letters c || inRanges Table.decimalDigits c ||
    inRanges Table.otherNumerics c

/-- A character that a quoted text shows as it is. -/
def isPrintable (c : Char) : Bool :=
  if c.toNat < 0x80 then 0x20 ≤ c.toNat && c.toNat < 0x7f else inRanges Table.printable c

/-- What an identifier may begin with. -/
def isNameStart (c : Char) : Bool :=
  c == '_' || isLetter c || inRanges Table.letterNumbers c

/-- What an identifier may go on with. -/
def isNamePart (c : Char) : Bool :=
  isNameStart c || isDigit c || inRanges Table.marks c

/-- Whether a text is an identifier. -/
def isName : List Char → Bool
  | [] => false
  | c :: rest => isNameStart c && rest.all isNamePart

/-- A hexadecimal digit. -/
def isHexDigit (c : Char) : Bool :=
  c.isDigit || ('a' ≤ c && c ≤ 'f') || ('A' ≤ c && c ≤ 'F')

/-- An octal digit. -/
def isOctDigit (c : Char) : Bool :=
  '0' ≤ c && c ≤ '7'

/-- The value of a hexadecimal digit, zero for any other character. -/
def hexValue (c : Char) : Nat :=
  if c.isDigit then c.toNat - '0'.toNat
  else if 'a' ≤ c && c ≤ 'f' then c.toNat - 'a'.toNat + 10
  else if 'A' ≤ c && c ≤ 'F' then c.toNat - 'A'.toNat + 10
  else 0

/-- The number that digits of the given base write, most significant first. -/
def digitsValue (base : Nat) (digits : List Char) : Nat :=
  digits.foldl (fun n c => n * base + hexValue c) 0

end Text
end DocHighlighter
