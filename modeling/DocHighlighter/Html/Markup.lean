/-
# Trees as markup

`Node.markup` writes a tree.  Every attribute has a quoted value, every element
an end tag unless it is one of those that never have content, and the text of a
few elements, such as scripts, stands as it is.  No other text can be taken for
markup: `&`, `<`, `>` and the no-break space are written as references, in
values the double quote as well.
-/

import DocHighlighter.Html.Node
import DocHighlighter.Text.Escape

namespace DocHighlighter
namespace Html

/-- Elements that never have content and are written without an end tag. -/
def voidNames : List String :=
  ["area", "base", "basefont", "bgsound", "br", "col", "embed", "frame", "hr", "img", "input",
    "keygen", "link", "meta", "param", "source", "track", "wbr"]

/-- Elements whose text is written as it is. -/
def plainTextNames : List String :=
  ["style", "script", "xmp", "iframe", "noembed", "noframes", "plaintext"]

/-- One character of a text, as it is written. -/
def textChar (c : Char) : List Char :=
  if c == '\u00a0' then ['&', 'n', 'b', 's', 'p', ';'] else Text.escapeChar c

/-- One character of an attribute's value, as it is written. -/
def valueChar (c : Char) : List Char :=
  if c == '"' then ['&', 'q', 'u', 'o', 't', ';'] else textChar c

/-- An attribute with the space before it. -/
def Attribute.markup (a : Attribute) : List Char :=
  ' ' :: a.name.toList ++ '=' :: '"' :: a.value.flatMap valueChar ++ ['"']

namespace Tag

/-- The start tag. -/
def opening (t : Tag) : List Char :=
  '<' :: t.name.toList ++ t.attributes.flatMap Attribute.markup ++ ['>']

/-- The end tag, if there is one. -/
def closing (t : Tag) : List Char :=
  if t.isOneOf voidNames then [] else '<' :: '/' :: t.name.toList ++ ['>']

/-- Whether text in the element is written as it is. -/
def holdsPlainText (t : Tag) : Bool :=
  t.isOneOf plainTextNames

end Tag

namespace Node

mutual

/-- A node as markup; `plain` says that text stands as it is. -/
def markupIn (plain : Bool) : Node → List Char
  | text content => if plain then content else content.flatMap textChar
  | comment content => '<' :: '!' :: '-' :: '-' :: content ++ ['-', '-', '>']
  | element tag children =>
    tag.opening ++ markupsIn tag.holdsPlainText children ++ tag.closing

/-- Nodes as markup, one after the other. -/
def markupsIn (plain : Bool) : List Node → List Char
  | [] => []
  | n :: rest => n.markupIn plain ++ markupsIn plain rest

end

/-- A tree as markup. -/
def markup (n : Node) : List Char :=
  n.markupIn false

end Node
end Html
end DocHighlighter
