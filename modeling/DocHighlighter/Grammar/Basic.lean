/-
# Grammars

A grammar describes how a language is highlighted.  Either it holds a tree of
span rules and some keywords, or it takes a ready-made lexer and adds keywords
to it.

A span rule opens a span where its opening pattern matches.  Without a closing
pattern the span is that one match; with one it goes on to where the closing
pattern matches, and the inner rules open further spans inside it.
-/

import DocHighlighter.Lexer.ReadyMade

namespace DocHighlighter

/-- A rule for spans of one tag. -/
structure SpanRule where
  tag : String
  opening : String
  closing : Option String
  inner : List SpanRule

/-- The kind of the tokens of a tag. -/
def SpanRule.kindOf? : String → Option Kind
  | "comment" => some .commentSingle
  | "doc" => some .stringDoc
  | "type" => some .keywordType
  | "attribute" => some .nameAttribute
  | "number" => some .numberInteger
  | "reference" => some .nameConstant
  | _ => none

/-- How a language is highlighted. -/
structure Grammar where
  name : String
  displayName : String
  aliases : List String := []
  caseInsensitive : Bool := false
  rules : List SpanRule := []
  /-- The keywords, in rising order and without repetition. -/
  keywords : List String := []
  filenames : List String := []
  /-- The lexer that the grammar builds on, instead of rules of its own. -/
  lexer : Option ReadyMade := none
  /-- The name of the grammar that this one was derived from. -/
  derivedFrom : Option String := none

/-- A set of words in rising order and without repetition. -/
def Grammar.wordSet (words : List String) : List String :=
  let sorted := words.mergeSort fun a b => !(b < a)
  sorted.foldr (fun w set => if set.head? = some w then set else w :: set) []

end DocHighlighter
