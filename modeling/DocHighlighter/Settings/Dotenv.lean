/-
# Settings in a file

A file of settings has a binding a line: a name, an equals sign and a value, or
a name alone.  The word `export` may stand before the name.  A value between
quotes ends at the closing quote, on whatever line; any other ends with the
line, or before a `#` that follows white space.  Lines that are no binding are
passed over.

In a value `${NAME}` stands for the value of a name, `${NAME:-default}` for
that or a default: of an earlier binding, else of the environment.
-/

import DocHighlighter.Text.Lines

namespace DocHighlighter
namespace Dotenv

/-- White space within a line. -/
def isGap (c : Char) : Bool :=
  Text.isBlank c && c != '\n' && c != '\r'

/-- A line break. -/
def isBreak (c : Char) : Bool :=
  c == '\n' || c == '\r'

/-- What follows the rest of a line. -/
def nextLine (text : List Char) : List Char :=
  (text.dropWhile (!isBreak ·)).drop 1

/-- The characters that a backslash may stand before in a value between quotes, with what it
means there. -/
def escapes (quote : Char) : List (Char × Char) :=
  if quote == '"' then
    [('\\', '\\'), ('\'', '\''), ('"', '"'), ('a', '\x07'), ('b', '\x08'), ('f', '\x0c'),
      ('n', '\n'), ('r', '\r'), ('t', '\t'), ('v', '\x0b')]
  else [('\\', '\\'), ('\'', '\'')]

/-- Replaces the escapes of a value. -/
def unescape (known : List (Char × Char)) : List Char → List Char
  | '\\' :: c :: rest =>
    match known.lookup c with
    | some d => d :: unescape known rest
    | none => '\\' :: unescape known (c :: rest)
  | c :: rest => c :: unescape known rest
  | [] => []
termination_by text => text.length

/-- The value up to its closing quote, the part read so far given backwards, and what follows.
A quote behind a backslash does not close. -/
def quoted? (quote : Char) (read : List Char) : List Char → Option (List Char × List Char)
  | [] => none
  | '\\' :: c :: rest =>
    if c == quote then
      match quoted? quote (c :: '\\' :: read) rest with
      | some found => some found
      | none => some (('\\' :: read).reverse, rest)
    else quoted? quote ('\\' :: read) (c :: rest)
  | c :: rest => if c == quote then some (read.reverse, rest) else quoted? quote (c :: read) rest
termination_by text => text.length

/-- A value without quotes, up to a comment. -/
def beforeComment : List Char → List Char
  | [] => []
  | c :: rest =>
    if Text.isBlank c && (rest.dropWhile Text.isBlank).head? == some '#' then []
    else c :: beforeComment rest

/-- The value at the start of a text, and what follows it. -/
def valueAt? (text : List Char) : Option (List Char × List Char) :=
  match text with
  | '\'' :: rest => (quoted? '\'' [] rest).map fun (v, rest) => (unescape (escapes '\'') v, rest)
  | '"' :: rest => (quoted? '"' [] rest).map fun (v, rest) => (unescape (escapes '"') v, rest)
  | _ =>
    some (Text.stripEnd Text.isBlank (beforeComment (text.takeWhile (!isBreak ·))),
      text.dropWhile (!isBreak ·))

/-- What follows a comment and the end of the line, if there is nothing else. -/
def lineEnd? (text : List Char) : Option (List Char) :=
  let text := text.dropWhile isGap
  let text := if text.head? == some '#' then text.dropWhile (!isBreak ·) else text
  match text with
  | [] => some []
  | '\r' :: '\n' :: rest => some rest
  | c :: rest => if isBreak c then some rest else none

/-- What follows the word `export` and the white space after it. -/
def afterExport (text : List Char) : List Char :=
  let word := "export".toList
  if word.isPrefixOf text && (text.drop word.length).head?.any isGap then
    (text.drop word.length).dropWhile isGap
  else text

/-- The name at the start of a text, empty before a comment, and what follows it. -/
def nameAt? (text : List Char) : Option (List Char × List Char) :=
  match text with
  | '#' :: _ => some ([], text)
  | '\'' :: rest =>
    match rest.takeWhile (· != '\''), rest.dropWhile (· != '\'') with
    | [], _ => none
    | _, [] => none
    | name, _ :: tail => some (name, tail)
  | _ =>
    let isPart (c : Char) : Bool := c != '=' && c != '#' && !Text.isBlank c
    match text.takeWhile isPart with
    | [] => none
    | name => some (name, text.dropWhile isPart)

/-- A name with its value, if it has one. -/
abbrev Binding := String × Option (List Char)

/-- The binding at the start of a text, if there is one, and what follows it. -/
def bindingAt (text : List Char) : Option Binding × List Char :=
  match nameAt? (afterExport text) with
  | none => (none, nextLine (afterExport text))
  | some (name, rest) =>
    let keep (value : Option (List Char)) (rest : List Char) : Option Binding × List Char :=
      match lineEnd? rest with
      | some tail => (if name.isEmpty then none else some (String.ofList name, value), tail)
      | none => (none, nextLine rest)
    match rest.dropWhile isGap with
    | '=' :: tail =>
      let tail := tail.dropWhile isGap
      match valueAt? tail with
      | some (value, rest) => keep (some value) rest
      | none => (none, nextLine tail)
    | rest => keep none rest

/-- The bindings of a text; `n` bounds the lines. -/
def bindings : Nat → List Char → List Binding
  | 0, _ => []
  | n + 1, text =>
    match text.dropWhile Text.isBlank with
    | [] => []
    | text =>
      match bindingAt text with
      | (some b, rest) => b :: bindings n rest
      | (none, rest) => bindings n rest

/-- Puts values in the places of names, as `value?` knows them; `n` bounds the steps. -/
def expand (value? : String → Option (List Char)) : Nat → List Char → List Char
  | 0, text => text
  | _ + 1, [] => []
  | n + 1, '$' :: '\x7b' :: rest =>
    let isName (c : Char) : Bool := c != '\x7d' && c != ':'
    let name := String.ofList (rest.takeWhile isName)
    match rest.dropWhile isName with
    | '\x7d' :: tail => (value? name).getD [] ++ expand value? n tail
    | ':' :: '-' :: tail =>
      match tail.dropWhile (· != '\x7d') with
      | _ :: after =>
        (value? name).getD (tail.takeWhile (· != '\x7d')) ++ expand value? n after
      | [] => '$' :: expand value? n ('\x7b' :: rest)
    | _ => '$' :: expand value? n ('\x7b' :: rest)
  | n + 1, c :: rest => c :: expand value? n rest

/-- Expands the values of bindings, the later ones with the earlier. -/
def expandAll (outside : List (String × String)) (known : List Binding) :
    List Binding → List Binding
  | [] => known
  | (name, value) :: rest =>
    let value? (n : String) : Option (List Char) :=
      match known.lookup n with
      | some v => some (v.getD [])
      | none => (outside.lookup n).map String.toList
    let value := value.map fun v => expand value? (v.length + 1) v
    let known :=
      if known.any (·.1 == name) then
        known.map fun b => if b.1 == name then (name, value) else b
      else known ++ [(name, value)]
    expandAll outside known rest

/-- Reads the text of a file of settings, in an environment. -/
def read (outside : List (String × String)) (text : String) : List (String × Option String) :=
  let text := Text.unifyNewlines text.toList
  (expandAll outside [] (bindings (text.length + 1) text)).map fun (name, value) =>
    (name, value.map String.ofList)

end Dotenv
end DocHighlighter
