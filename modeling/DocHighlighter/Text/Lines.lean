/-
# Lines, margins and tabs

Newlines come in three spellings, and the library works on one: `unifyNewlines`
turns a return, and a return with the newline after it, into a newline.  The
strip functions take a class of characters off one end or both.
-/

import DocHighlighter.Text.CharClass

namespace DocHighlighter
namespace Text

/-- Turns every return, and every return with a newline after it, into one newline. -/
def unifyNewlines : List Char → List Char
  | [] => []
  | '\r' :: '\n' :: rest => '\n' :: unifyNewlines rest
  | '\r' :: rest => '\n' :: unifyNewlines rest
  | c :: rest => c :: unifyNewlines rest

/-- Takes the characters of a class off the end of a text. -/
def stripEnd (p : Char → Bool) (text : List Char) : List Char :=
  (text.reverse.dropWhile p).reverse

/-- Takes the characters of a class off both ends of a text. -/
def stripEnds (p : Char → Bool) (text : List Char) : List Char :=
  stripEnd p (text.dropWhile p)

/-- A stripped text does not end in a character of the class. -/
theorem stripEnd_append_singleton_of_not {p : Char → Bool} {c : Char} (text : List Char)
    (h : p c = false) : stripEnd p (text ++ [c]) = text ++ [c] := by
  simp [stripEnd, h]

/-- Fills each tab with spaces up to the next multiple of `width` columns. -/
def expandTabs (width : Nat) (text : List Char) : List Char :=
  go 0 text
where
  /-- Goes on from a column. -/
  go : Nat → List Char → List Char
    | _, [] => []
    | column, '\t' :: rest =>
      let fill := width - column % width
      List.replicate fill ' ' ++ go (column + fill) rest
    | column, c :: rest =>
      c :: go (if c == '\n' || c == '\r' then 0 else column + 1) rest

/-- Splits a text at a character; there is one piece more than there are separators. -/
def splitAt (separator : Char) : List Char → List (List Char)
  | [] => [[]]
  | c :: rest =>
    match splitAt separator rest with
    | [] => [[c]]
    | piece :: pieces =>
      if c == separator then [] :: piece :: pieces else (c :: piece) :: pieces

/-- The maximal runs of characters outside a class, in order. -/
def fields (p : Char → Bool) (text : List Char) : List (List Char) :=
  close (text.foldr (fun c acc =>
    if p c then ([], close acc) else (c :: acc.1, acc.2)) ([], []))
where
  /-- Ends the run being read. -/
  close : List Char × List (List Char) → List (List Char)
    | ([], runs) => runs
    | (run, runs) => run :: runs

end Text
end DocHighlighter
