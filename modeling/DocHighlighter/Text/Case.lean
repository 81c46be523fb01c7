/-
# Case maps

Three maps with three purposes:

| map | kind | purpose |
|---|---|---|
| `lower` | one character to one | patterns that ignore case |
| `foldText` | one character to several | keywords that ignore case |
| `upperText` | one character to several | names formed from words |

Two characters are the same for a pattern that ignores case when their lower
cases are equal or have a common upper case (`sameIgnoringCase`): `K` and the
Kelvin sign are, `ß` and `ss` are not.
-/

import DocHighlighter.Text.Table.Case

namespace DocHighlighter
namespace Text

/-- The image of a character under a table of shifts, if the table covers it. -/
def shifted? (table : Array Table.Shift) (c : Char) : Option Char :=
  (table.findSome? (·.image? c.toNat)).map Char.ofNat

/-- The entry of a character in a table of texts. -/
def textOf? (table : Array (Nat × List Nat)) (c : Char) : Option (List Char) :=
  (table.find? (·.1 == c.toNat)).map fun e => e.2.map Char.ofNat

/-- The simple lower case of a character. -/
def lower (c : Char) : Char :=
  if c.toNat < 0x80 then c.toLower else (shifted? Table.lowerShifts c).getD c

/-- Other lower-case characters with the same upper case as the lower-case character `c`. -/
def lowerTwins (c : Char) : List Char :=
  (textOf? Table.sameUpper c).getD []

/-- Equality for patterns that ignore case. -/
def sameIgnoringCase (a b : Char) : Bool :=
  let l := lower a
  let m := lower b
  l == m || (lowerTwins l).contains m

/-- Whether some character between `lo` and `hi` equals `c` when case is ignored. -/
def inRangeIgnoringCase (lo hi c : Char) : Bool :=
  let within (d : Char) : Bool := lo ≤ d && d ≤ hi
  let lowers := lower c :: lowerTwins (lower c)
  lowers.any fun l =>
    (within l && lower l == l) ||
      (l.toNat < 0x80 && within l.toUpper) ||
      Table.lowerShifts.any fun s =>
        match s.source? l.toNat with
        | some n => within (Char.ofNat n)
        | none => false

/-- The full case folding of a character. -/
def foldText (c : Char) : List Char :=
  if c.toNat < 0x80 then [c.toLower]
  else match textOf? Table.foldTexts c with
    | some text => text
    | none => [(shifted? Table.foldShifts c).getD (lower c)]

/-- The full case folding of a text: what two keywords share when case is ignored. -/
def fold (s : String) : String :=
  String.ofList (s.toList.flatMap foldText)

/-- The full upper case of a character. -/
def upperText (c : Char) : List Char :=
  if c.toNat < 0x80 then [c.toUpper]
  else match textOf? Table.upperTexts c with
    | some text => text
    | none => [(shifted? Table.upperShifts c).getD c]

end Text
end DocHighlighter
