/-
# The interface definition language

Documentation starts with `@` and runs to the end of the line, or between
fences of three backticks; literal values follow a colon; attributes stand in
brackets and `{Name}` marks a reference to a type.

The rules with openings of several characters come before the literals, so that
a colon inside brackets or documentation is never read as one.
-/

import DocHighlighter.Grammar.Basic

namespace DocHighlighter
namespace Language
namespace Idl

/-- Words that begin a declaration. -/
def keywords : List String := [
  "api", "enum", "const", "struct", "field", "interface", "method", "arg", "prop", "event",
  "handle", "func", "callback", "import"]

/-- A literal ends at the end of the line, or where documentation or attributes begin. -/
def literalEnd : String := r"(?=\n|$|@|\[)"

def lineEnd : String := r"(?=\n|$)"

/-- What may stand inside documentation. -/
def docSpans : List SpanRule := [
  ⟨"type", r"\{", some r"\}", []⟩,
  ⟨"attribute", r"\[", some r"\]", []⟩]

def comment : SpanRule := ⟨"comment", r"//", some lineEnd, []⟩

def fencedDocumentation : SpanRule := ⟨"doc", r"@\s*```", some r"```", docSpans⟩

def documentation : SpanRule := ⟨"doc", r"@\s*(\w+)?", some lineEnd, docSpans⟩

def typeReference : SpanRule := ⟨"type", r"\{", some r"\}", []⟩

def attributes : SpanRule := ⟨"attribute", r"\[", some r"\]", [
  ⟨"number", r"\(\s*\d+", some r"\)", []⟩,
  ⟨"reference", r"\(\s*\w+", some r"\)", []⟩]⟩

def literal : SpanRule := ⟨"number", r":\s*\d+", some literalEnd, []⟩

def namedLiteral : SpanRule := ⟨"reference", r":\s*\w+", some literalEnd, []⟩

/-- The grammar of the language. -/
def grammar : Grammar where
  name := "idl"
  displayName := "IDL"
  aliases := ["idlc"]
  rules := [comment, fencedDocumentation, documentation, typeReference, attributes, literal,
    namedLiteral]
  keywords := Grammar.wordSet keywords
  filenames := ["*.idl"]

end Idl
end Language
end DocHighlighter
