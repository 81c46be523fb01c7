/-
# Character references

A reference stands for a character: `&#60;` and `&#x3c;` by its number, `&lt;`
by a name.  `decode` replaces the references of a text.  A number that is no
character, or none that a page may hold, gives U+FFFD; numbers from 128 to 159
mean the characters of an old code page.  A name may do without its semicolon,
if it is one of the oldest, and in the value of an attribute only if no letter,
digit or equals sign follows.
-/

import DocHighlighter.Text.CharClass

namespace DocHighlighter
namespace Html
namespace Reference

/-- What stands in the place of a character that cannot be. -/
def replacement : Char := '\ufffd'

/-- The characters that the numbers from 128 on stand for. -/
def oldCodePage : List Nat :=
  [0x20ac, 0x81, 0x201a, 0x0192, 0x201e, 0x2026, 0x2020, 0x2021, 0x02c6, 0x2030, 0x0160, 0x2039,
    0x0152, 0x8d, 0x017d, 0x8f, 0x90, 0x2018, 0x2019, 0x201c, 0x201d, 0x2022, 0x2013, 0x2014,
    0x02dc, 0x2122, 0x0161, 0x203a, 0x0153, 0x9d, 0x017e, 0x0178]

/-- The character that a number stands for. -/
def ofNumber (n : Nat) : Char :=
  if n == 0 then replacement
  else if 0x80 ≤ n && n < 0xa0 then Char.ofNat (oldCodePage.getD (n - 0x80) n)
  else if n.isValidChar then Char.ofNat n
  else replacement

/-- A name for a character. -/
structure Name where
  name : List Char
  char : Char
  /-- Whether the semicolon may be left out. -/
  isOld : Bool := true

/-- The names for characters. -/
def names : List Name :=
  [⟨['l', 't'], '<', true⟩, ⟨['g', 't'], '>', true⟩, ⟨['a', 'm', 'p'], '&', true⟩,
    ⟨['q', 'u', 'o', 't'], '"', true⟩, ⟨['a', 'p', 'o', 's'], '\'', false⟩,
    ⟨['n', 'b', 's', 'p'], '\u00a0', true⟩, ⟨['c', 'o', 'p', 'y'], '\u00a9', true⟩]

/-- A text without a semicolon at its start. -/
def afterSemicolon : List Char → List Char
  | ';' :: rest => rest
  | text => text

/-- The number at the start of a text and what follows it. -/
def number? (base : Nat) (isDigit : Char → Bool) (text : List Char) :
    Option (Char × List Char) :=
  match text.takeWhile isDigit with
  | [] => none
  | digits =>
    some (ofNumber (Text.digitsValue base digits), afterSemicolon (text.dropWhile isDigit))

/-- Whether a name without its semicolon counts, by what follows it. -/
def countsBefore (inValue : Bool) : List Char → Bool
  | c :: _ => !(inValue && (c == '=' || c.isAlphanum))
  | [] => true

/-- The name at the start of a text and what follows it. -/
def name? (inValue : Bool) (text : List Char) : List Name → Option (Char × List Char)
  | [] => none
  | n :: rest =>
    match n.name.isPrefixOf text, text.drop n.name.length with
    | true, ';' :: tail => some (n.char, tail)
    | true, tail =>
      if n.isOld && countsBefore inValue tail then some (n.char, tail)
      else name? inValue text rest
    | false, _ => name? inValue text rest

/-- The reference whose `&` stands before a text, and what follows it. -/
def read? (inValue : Bool) : List Char → Option (Char × List Char)
  | '#' :: 'x' :: text => number? 16 Text.isHexDigit text
  | '#' :: 'X' :: text => number? 16 Text.isHexDigit text
  | '#' :: text => number? 10 Char.isDigit text
  | text => name? inValue text names

theorem afterSemicolon_length_le (text : List Char) :
    (afterSemicolon text).length ≤ text.length := by
  unfold afterSemicolon; split <;> simp

theorem number?_length_le {base : Nat} {isDigit : Char → Bool} {text : List Char}
    {c : Char} {rest : List Char} (h : number? base isDigit text = some (c, rest)) :
    rest.length ≤ text.length := by
  unfold number? at h
  split at h
  · simp at h
  · simp only [Option.some.injEq, Prod.mk.injEq] at h
    rw [← h.2]
    exact Nat.le_trans (afterSemicolon_length_le _) (List.dropWhile_suffix isDigit).length_le

theorem name?_length_le {inValue : Bool} {text : List Char} {c : Char} {rest : List Char}
    {known : List Name} (h : name? inValue text known = some (c, rest)) :
    rest.length ≤ text.length := by
  induction known with
  | nil => simp [name?] at h
  | cons n more ih =>
    have hdrop : (text.drop n.name.length).length ≤ text.length := by simp
    unfold name? at h
    split at h
    · rename_i hd
      simp only [Option.some.injEq, Prod.mk.injEq] at h
      rw [hd] at hdrop
      rw [← h.2]
      exact Nat.le_trans (Nat.le_succ _) hdrop
    · split at h
      · simp only [Option.some.injEq, Prod.mk.injEq] at h
        rw [← h.2]; exact hdrop
      · exact ih h
    · exact ih h

/-- Reading a reference never gives back more than there was. -/
theorem read?_length_le {inValue : Bool} {text : List Char} {c : Char} {rest : List Char}
    (h : read? inValue text = some (c, rest)) : rest.length ≤ text.length := by
  unfold read? at h
  split at h
  · exact Nat.le_trans (number?_length_le h) (by simp only [List.length_cons]; omega)
  · exact Nat.le_trans (number?_length_le h) (by simp only [List.length_cons]; omega)
  · exact Nat.le_trans (number?_length_le h) (by simp only [List.length_cons]; omega)
  · exact name?_length_le h

/-- Replaces the references of a text; `inValue` says that it is the value of an attribute. -/
def decode (inValue : Bool) : List Char → List Char
  | [] => []
  | '&' :: text =>
    match h : read? inValue text with
    | some (c, rest) =>
      have := read?_length_le h
      c :: decode inValue rest
    | none => '&' :: decode inValue text
  | c :: text => c :: decode inValue text
termination_by text => text.length

end Reference
end Html
end DocHighlighter
