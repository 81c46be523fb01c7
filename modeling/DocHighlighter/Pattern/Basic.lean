/-
# Patterns

A pattern is an expression over characters with the flags it starts under.

| expression | matches |
|---|---|
| `char`, `any`, `oneOf` | one character |
| `anchor` | nothing, at a place of the given kind |
| `seq`, `alt` | one after the other; the first, else the second |
| `group` | as its body, and remembers the span |
| `scoped` | as its body, under changed flags |
| `turns` | its body again and again |
| `ahead`, `behind` | nothing, where the body matches (or does not) |
| `atomic` | as its body, without a second thought |
| `backref` | the text of an earlier group |
| `ifGroup` | one of two bodies, by whether a group has matched |

`behind` carries the width of its body, which is the same for every match.
-/

import DocHighlighter.Pattern.Words

namespace DocHighlighter
namespace Pattern

/-- Switches that change what expressions match. -/
structure Flags where
  /-- Letters match in either case. -/
  ignoreCase : Bool := false
  /-- `any` matches a newline too. -/
  dotAll : Bool := false
  /-- Line anchors hold at every line, not only at the ends of the text. -/
  multiLine : Bool := false
  /-- Blanks and comments in the written form are skipped. -/
  verbose : Bool := false
  /-- The character categories know ASCII only. -/
  ascii : Bool := false
  deriving DecidableEq

namespace Flags

/-- The flags on in either of two sets. -/
def union (a b : Flags) : Flags where
  ignoreCase := a.ignoreCase || b.ignoreCase
  dotAll := a.dotAll || b.dotAll
  multiLine := a.multiLine || b.multiLine
  verbose := a.verbose || b.verbose
  ascii := a.ascii || b.ascii

/-- The flags on in `a` and off in `b`. -/
def diff (a b : Flags) : Flags where
  ignoreCase := a.ignoreCase && !b.ignoreCase
  dotAll := a.dotAll && !b.dotAll
  multiLine := a.multiLine && !b.multiLine
  verbose := a.verbose && !b.verbose
  ascii := a.ascii && !b.ascii

/-- Whether two sets share a flag. -/
def meets (a b : Flags) : Bool :=
  (a.ignoreCase && b.ignoreCase) || (a.dotAll && b.dotAll) || (a.multiLine && b.multiLine) ||
    (a.verbose && b.verbose) || (a.ascii && b.ascii)

end Flags

/-- The named categories of characters. -/
inductive Category where
  | digit
  | blank
  | word
  /-- What an identifier begins with. -/
  | nameStart
  /-- What an identifier goes on with. -/
  | namePart
  deriving DecidableEq

/-- A member of a character set. -/
inductive SetItem where
  | single (c : Char)
  | range (lo hi : Char)
  | category (kind : Category) (negated : Bool)
  deriving DecidableEq

/-- The kinds of places that an expression can ask for. -/
inductive Anchor where
  | textStart
  | textEnd
  | lineStart
  | lineEnd
  | wordEdge
  | notWordEdge
  deriving DecidableEq

/-- How a repeated body is tried: as often as possible first, as rarely as
possible first, or as often as possible and never less. -/
inductive Eagerness where
  | greedy
  | lazy
  | possessive
  deriving DecidableEq

/-- What a pattern matches. -/
inductive Expr where
  | empty
  | char (c : Char)
  | any
  | oneOf (negated : Bool) (items : List SetItem)
  | anchor (a : Anchor)
  | seq (a b : Expr)
  | alt (a b : Expr)
  | group (n : Nat) (body : Expr)
  | scoped (on off : Flags) (body : Expr)
  | turns (least : Nat) (most : Option Nat) (eagerness : Eagerness) (body : Expr)
  | ahead (negated : Bool) (body : Expr)
  | behind (width : Nat) (negated : Bool) (body : Expr)
  | atomic (body : Expr)
  | backref (n : Nat)
  | ifGroup (n : Nat) (yes no : Expr)
  deriving DecidableEq

namespace Expr

/-- One expression after the other. -/
def seqAll : List Expr → Expr
  | [] => .empty
  | [e] => e
  | e :: es => .seq e (seqAll es)

/-- The first expression of a list that matches, in order. -/
def altAll : List Expr → Expr
  | [] => .oneOf false []
  | [e] => e
  | e :: es => .alt e (altAll es)

/-- A text, character by character. -/
def text (cs : List Char) : Expr :=
  seqAll (cs.map .char)

/-- One character of a category. -/
def ofCategory (kind : Category) (negated : Bool := false) : Expr :=
  .oneOf false [.category kind negated]

/-- One character, whichever it is. -/
def anything : Expr :=
  .oneOf false [.category .blank false, .category .blank true]

/-- One turn or more, as many as possible. -/
def many (body : Expr) : Expr :=
  .turns 1 none .greedy body

/-- One of the words of a list, in the order in which words are tried. -/
def oneOfWords (words : List (List Char)) : Expr :=
  altAll ((tryOrder (inOrder words)).map text)

/-- A whole word of a list: the first that matches between two word edges. -/
def wholeWord (words : List (List Char)) : Expr :=
  .seq (.anchor .wordEdge) (.seq (oneOfWords words) (.anchor .wordEdge))

end Expr
end Pattern

/-- A pattern ready to be matched: an expression and the flags it starts under. -/
structure Pattern where
  expr : Pattern.Expr
  flags : Pattern.Flags
  deriving DecidableEq

end DocHighlighter
