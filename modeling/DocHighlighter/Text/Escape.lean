/-
# Escaped and quoted texts

`escapeText` writes a text so that markup reads it back as text, and
`escapeQuoted` so that it can also stand between quotes as the value of an
attribute.

In messages a quoted text (`quoted`) stands between single quotes, or between
double quotes when it holds a single quote and no double quote.  The backslash,
the quote itself and the characters that do not print are escaped, so the quoted
form is one line and shows every character.
-/

import DocHighlighter.Text.CharClass

namespace DocHighlighter
namespace Text

/-! ## In markup -/

/-- The written form of one character of a text in markup. -/
def escapeChar : Char → List Char
  | '&' => ['&', 'a', 'm', 'p', ';']
  | '<' => ['&', 'l', 't', ';']
  | '>' => ['&', 'g', 't', ';']
  | c => [c]

/-- The written form of one character of an attribute's value. -/
def escapeQuotedChar : Char → List Char
  | '"' => ['&', 'q', 'u', 'o', 't', ';']
  | '\'' => ['&', '#', 'x', '2', '7', ';']
  | c => escapeChar c

/-- The written form of a text in markup. -/
def escapeText (text : List Char) : List Char :=
  text.flatMap escapeChar

/-- The written form of an attribute's value. -/
def escapeQuoted (text : List Char) : List Char :=
  text.flatMap escapeQuotedChar

/-! ## In messages -/

/-- The lower-case hexadecimal digits of `n`, at least `width` of them. -/
def hexDigits (width n : Nat) : List Char :=
  let digits := Nat.toDigits 16 n
  List.replicate (width - digits.length) '0' ++ digits

/-- The form of one character between quotes of the kind `quote`. -/
def quotedChar (quote c : Char) : List Char :=
  if c == quote || c == '\\' then ['\\', c]
  else if c == '\n' then ['\\', 'n']
  else if c == '\r' then ['\\', 'r']
  else if c == '\t' then ['\\', 't']
  else if isPrintable c then [c]
  else if c.toNat < 0x100 then '\\' :: 'x' :: hexDigits 2 c.toNat
  else if c.toNat < 0x10000 then '\\' :: 'u' :: hexDigits 4 c.toNat
  else '\\' :: 'U' :: hexDigits 8 c.toNat

/-- The quotes that a text is written between. -/
def quoteFor (text : List Char) : Char :=
  if text.contains '\'' && !text.contains '"' then '"' else '\''

/-- The quoted form of a text. -/
def quoted (s : String) : String :=
  let quote := quoteFor s.toList
  String.ofList (quote :: s.toList.flatMap (quotedChar quote) ++ [quote])

end Text
end DocHighlighter
