/-
# Values of settings

A value of a setting is what a JSON text can say.  Of a number only that counts
which settings ask about: whether it is whole, and which whole number it is.
`Value.read?` reads a JSON text; `NaN` and `Infinity` are numbers in it.
-/

import DocHighlighter.Text.CharClass

namespace DocHighlighter

/-- A value of a setting. -/
inductive Value where
  | null
  | bool (b : Bool)
  /-- A number, with its value if it is whole. -/
  | number (whole : Option Int)
  | text (s : String)
  | list (items : List Value)
  | record (fields : List (String × Value))
  deriving Inhabited

namespace Value

/-- Puts a field at the place of the one with its name, else at the end. -/
def setField (name : String) (v : Value) (fields : List (String × Value)) :
    List (String × Value) :=
  if fields.any (·.1 == name) then
    fields.map fun f => if f.1 == name then (name, v) else f
  else fields ++ [(name, v)]

/-- Blanks between the parts of a JSON text. -/
def isGap (c : Char) : Bool :=
  c == ' ' || c == '\t' || c == '\n' || c == '\r'

/-- A text without the blanks at its start. -/
def skip (text : List Char) : List Char :=
  text.dropWhile isGap

/-- The exponents beyond which a number is as good as infinite. -/
def greatestExponent : Nat := 400

/-- The whole number that digits with a point and an exponent make, if it is one.  The digits are
those before and behind the point. -/
def wholeOf (whole fraction : List Char) (exponent : Int) : Option Nat :=
  let digits := Text.digitsValue 10 (whole ++ fraction)
  let shift := exponent - fraction.length
  if digits == 0 then some 0
  else if shift.natAbs > greatestExponent + whole.length + fraction.length then none
  else if 0 ≤ shift then some (digits * Nat.pow 10 shift.toNat)
  else
    let unit := Nat.pow 10 (-shift).toNat
    if digits % unit == 0 then some (digits / unit) else none

/-- The exponent at the start of a text, and what follows it. -/
def exponentAt (text : List Char) : Int × List Char :=
  match text with
  | 'e' :: rest => signed rest
  | 'E' :: rest => signed rest
  | _ => (0, text)
where
  /-- The exponent after its letter. -/
  signed (rest : List Char) : Int × List Char :=
    match rest with
    | '-' :: tail => digits (fun n => -(n : Int)) tail
    | '+' :: tail => digits (fun n => n) tail
    | _ => digits (fun n => n) rest
  /-- The exponent after its sign. -/
  digits (sign : Nat → Int) (rest : List Char) : Int × List Char :=
    match rest.takeWhile Char.isDigit with
    | [] => (0, text)
    | ds => (sign (Text.digitsValue 10 ds), rest.dropWhile Char.isDigit)

/-- The part of a number behind its point, and what follows it. -/
def fractionAt (text : List Char) : List Char × List Char :=
  match text with
  | '.' :: rest =>
    match rest.takeWhile Char.isDigit with
    | [] => ([], text)
    | ds => (ds, rest.dropWhile Char.isDigit)
  | _ => ([], text)

/-- The number at the start of a text, after its sign, and what follows it. -/
def numberAt? (negative : Bool) (text : List Char) : Option (Value × List Char) :=
  let whole := match text with
    | '0' :: _ => ['0']
    | _ => text.takeWhile Char.isDigit
  if whole.isEmpty then none
  else
    let (fraction, rest) := fractionAt (text.drop whole.length)
    let (exponent, rest) := exponentAt rest
    some (number ((wholeOf whole fraction exponent).map fun n =>
      if negative then -(n : Int) else n), rest)

/-- The number that four hexadecimal digits at the start of a text write. -/
def fourDigits? (text : List Char) : Option (Nat × List Char) :=
  let digits := text.take 4
  if digits.length == 4 && digits.all Text.isHexDigit then
    some (Text.digitsValue 16 digits, text.drop 4)
  else none

/-- The characters that one letter after a backslash stands for. -/
def escapes : List (Char × Char) :=
  [('"', '"'), ('\\', '\\'), ('/', '/'), ('b', '\x08'), ('f', '\x0c'), ('n', '\n'), ('r', '\r'),
    ('t', '\t')]

/-- The character of two halves, or U+FFFD for one that stands alone. -/
def ofHalves (high low : Nat) : Char :=
  Char.ofNat (0x10000 + (high - 0xd800) * 0x400 + (low - 0xdc00))

/-- The character that an escape after `\u` writes, and what follows it. -/
def unicodeAt? (text : List Char) : Option (Char × List Char) :=
  match fourDigits? text with
  | none => none
  | some (n, rest) =>
    if 0xd800 ≤ n && n < 0xe000 then
      match rest with
      | '\\' :: 'u' :: tail =>
        match fourDigits? tail with
        | some (m, tail) =>
          if n < 0xdc00 && 0xdc00 ≤ m && m < 0xe000 then some (ofHalves n m, tail)
          else some ('\ufffd', rest)
        | none => some ('\ufffd', rest)
      | _ => some ('\ufffd', rest)
    else some (Char.ofNat n, rest)

/-- A text up to its closing quote, the part read so far given backwards, and what follows. -/
def stringAt? : Nat → List Char → List Char → Option (String × List Char)
  | 0, _, _ => none
  | _ + 1, _, [] => none
  | _ + 1, read, '"' :: rest => some (String.ofList read.reverse, rest)
  | n + 1, read, '\\' :: 'u' :: rest =>
    match unicodeAt? rest with
    | some (c, rest) => stringAt? n (c :: read) rest
    | none => none
  | n + 1, read, '\\' :: c :: rest =>
    match escapes.lookup c with
    | some c => stringAt? n (c :: read) rest
    | none => none
  | n + 1, read, c :: rest =>
    if c == '\\' || c.toNat < 0x20 then none else stringAt? n (c :: read) rest

/-- The values that words stand for. -/
def words : List (List Char × Value) :=
  [("null".toList, null), ("true".toList, bool true), ("false".toList, bool false),
    ("NaN".toList, number none), ("Infinity".toList, number none),
    ("-Infinity".toList, number none)]

mutual

/-- The value at the start of a text, and what follows it; `n` bounds the steps. -/
def valueAt? : Nat → List Char → Option (Value × List Char)
  | 0, _ => none
  | n + 1, input =>
    match input with
    | '"' :: rest => (stringAt? rest.length.succ [] rest).map fun (s, rest) => (text s, rest)
    | '[' :: rest =>
      match skip rest with
      | ']' :: tail => some (list [], tail)
      | other => (itemsAt? n other).map fun (items, rest) => (list items, rest)
    | '\x7b' :: rest =>
      match skip rest with
      | '\x7d' :: tail => some (record [], tail)
      | other => (fieldsAt? n [] other).map fun (fields, rest) => (record fields, rest)
    | _ =>
      match words.find? fun w => w.1.isPrefixOf input with
      | some (word, v) => some (v, input.drop word.length)
      | none =>
        match input with
        | '-' :: rest => numberAt? true rest
        | _ => numberAt? false input

/-- The items of a list up to its end, and what follows. -/
def itemsAt? : Nat → List Char → Option (List Value × List Char)
  | 0, _ => none
  | n + 1, input =>
    match valueAt? n input with
    | none => none
    | some (v, rest) =>
      match skip rest with
      | ']' :: tail => some ([v], tail)
      | ',' :: tail => (itemsAt? n (skip tail)).map fun (vs, rest) => (v :: vs, rest)
      | _ => none

/-- The fields of a record up to its end, besides those read, and what follows. -/
def fieldsAt? : Nat → List (String × Value) → List Char →
    Option (List (String × Value) × List Char)
  | 0, _, _ => none
  | n + 1, known, input =>
    match input with
    | '"' :: rest =>
      match stringAt? rest.length.succ [] rest with
      | none => none
      | some (name, rest) =>
        match skip rest with
        | ':' :: tail =>
          match valueAt? n (skip tail) with
          | none => none
          | some (v, rest) =>
            let known := setField name v known
            match skip rest with
            | '\x7d' :: tail => some (known, tail)
            | ',' :: tail => fieldsAt? n known (skip tail)
            | _ => none
        | _ => none
    | _ => none

end

/-- Reads a JSON text. -/
def read? (s : String) : Option Value :=
  let input := s.toList
  match valueAt? (2 * input.length + 2) (skip input) with
  | some (v, rest) => if (skip rest).isEmpty then some v else none
  | none => none

end Value
end DocHighlighter
