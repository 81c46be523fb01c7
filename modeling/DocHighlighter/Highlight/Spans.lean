/-
# Tokens as spans of markup

The tokens of a text are written line by line.  A token stands in a span of its
kind's class, or in none if the class is empty; a span ends with its line, and
neighbours of one class on a line share a span.  A newline stands outside of
every span.
-/

import DocHighlighter.Text.Escape
import DocHighlighter.Text.Lines
import DocHighlighter.Token.Basic

namespace DocHighlighter
namespace Spans

/-- What has been written so far. -/
structure State where
  /-- The lines that are complete, latest first, each with its newline. -/
  done : List (List Char) := []
  /-- The line being written. -/
  line : List Char := []
  /-- The class of the span that is open in that line, or was last. -/
  span : String := ""

/-- The tag that opens a span of a class; the empty class has no span. -/
def opener (cls : String) : List Char :=
  if cls.isEmpty then [] else "<span class=\"".toList ++ cls.toList ++ "\">".toList

/-- The tag that closes a span of a class. -/
def closer (cls : String) : List Char :=
  if cls.isEmpty then [] else "</span>".toList

namespace State

/-- Writes a piece of text that ends its line. -/
def endLine (s : State) (cls : String) (part : List Char) : State :=
  let rest :=
    if s.line.isEmpty then
      if part.isEmpty then [] else opener cls ++ part ++ closer cls
    else if s.span ≠ cls ∧ ¬ part.isEmpty then
      closer s.span ++ opener cls ++ part ++ closer cls
    else part ++ closer s.span
  { s with done := (s.line ++ rest ++ ['\n']) :: s.done, line := [] }

/-- Writes a piece of text that leaves its line open. -/
def extendLine (s : State) (cls : String) (part : List Char) : State :=
  if part.isEmpty then s
  else if s.line.isEmpty then { s with line := opener cls ++ part, span := cls }
  else if s.span = cls then { s with line := s.line ++ part }
  else { s with line := s.line ++ closer s.span ++ opener cls ++ part, span := cls }

/-- Writes the pieces of a token, all but the last of which end their line. -/
def writeParts (s : State) (cls : String) : List (List Char) → State
  | [] => s
  | [part] => s.extendLine cls part
  | part :: parts => (s.endLine cls part).writeParts cls parts

/-- Writes a token. -/
def write (s : State) (t : Token) : State :=
  s.writeParts t.kind.cssClass (Text.splitAt '\n' (Text.escapeText t.text.toList))

/-- The lines written, the last of which is ended if it is open. -/
def finish (s : State) : List Char :=
  let lines := if s.line.isEmpty then s.done else (s.line ++ closer s.span ++ ['\n']) :: s.done
  lines.reverse.flatten

end State

/-- Tokens as markup, each line with its newline. -/
def lines (tokens : List Token) : List Char :=
  (tokens.foldl State.write {}).finish

/-- Tokens as markup, without the newlines at the end. -/
def ofTokens (tokens : List Token) : String :=
  String.ofList (Text.stripEnd (· == '\n') (lines tokens))

end Spans
end DocHighlighter
