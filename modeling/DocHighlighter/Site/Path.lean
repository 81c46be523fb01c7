/-
# Paths

A path is a start, which says whether it is absolute, and the names on the way.
Reading a path drops empty names and the name `.`; `..` stays, for what it leads
to depends on the files.  Exactly two slashes at the beginning are a start of
their own.
-/

import DocHighlighter.Text.Lines

namespace DocHighlighter

/-- Where a path starts. -/
inductive PathStart where
  | here
  | top
  | doubleTop
  deriving DecidableEq

/-- A way to a file or a directory. -/
structure Path where
  start : PathStart := .here
  parts : List String := []
  deriving DecidableEq

namespace PathStart

/-- The slashes that a path begins with. -/
def text : PathStart → String
  | here => ""
  | top => "/"
  | doubleTop => "//"

/-- Reads where a path starts. -/
def read : List Char → PathStart
  | '/' :: '/' :: '/' :: _ => top
  | '/' :: '/' :: _ => doubleTop
  | '/' :: _ => top
  | _ => here

end PathStart

namespace Path

/-- Reads a path. -/
def read (s : String) : Path where
  start := PathStart.read s.toList
  parts := ((Text.splitAt '/' s.toList).map String.ofList).filter fun p => p != "" && p != "."

/-- A path as text. -/
def text (p : Path) : String :=
  match p.start, p.parts with
  | .here, [] => "."
  | start, parts => start.text ++ String.intercalate "/" parts

/-- The path that leads on by names. -/
def append (p : Path) (names : List String) : Path :=
  { p with parts := p.parts ++ names }

/-- Whether names come before others in the order of paths: name by name. -/
def namesLe : List String → List String → Bool
  | [], _ => true
  | _ :: _, [] => false
  | a :: as, b :: bs => if a == b then namesLe as bs else decide (a < b)

end Path
end DocHighlighter
