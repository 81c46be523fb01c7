/-
# Open elements

While a page is read, some elements are open: they stand on a stack, innermost
first, each with the children that are finished so far, the last one first.
Closing the innermost element puts it, with its children, among the children of
another (`pop`).  That is nearly always the element around it; what does not
belong into a table goes before the table instead, and what belongs into the
head of the page, after the head was closed, goes there (`Home`).
-/

import DocHighlighter.Html.Node

namespace DocHighlighter
namespace Html

/-- Where an open element goes when it is closed. -/
inductive Home where
  /-- To the children of the element around it. -/
  | within
  /-- Before the innermost table. -/
  | beforeTable
  /-- To the end of the closed head. -/
  | head
  deriving DecidableEq

/-- An open element. -/
structure Frame where
  tag : Tag
  /-- Tells elements with equal tags apart. -/
  id : Nat
  home : Home := .within
  /-- The finished children, last one first. -/
  children : List Node := []

/-- The element as it stands. -/
def Frame.node (f : Frame) : Node :=
  .element f.tag f.children.reverse

/-- Puts a node behind others, given last one first; a text goes on the text before it. -/
def push (n : Node) (children : List Node) : List Node :=
  match n, children with
  | .text s, .text t :: rest => .text (t ++ s) :: rest
  | n, children => n :: children

/-- The open elements, innermost first. -/
abbrev Stack := List Frame

namespace Stack

/-- Puts a node among the children of the innermost open element. -/
def attachWithin (n : Node) : Stack → Stack
  | [] => []
  | f :: rest => { f with children := push n f.children } :: rest

/-- Puts a node before the innermost open table, or into the outermost element. -/
def attachBeforeTable (n : Node) : Stack → Stack
  | [] => []
  | [f] => attachWithin n [f]
  | f :: g :: rest =>
    if f.tag.isPage "table" then f :: attachWithin n (g :: rest)
    else f :: attachBeforeTable n (g :: rest)

/-- Puts a node at the end of the closed head among children that are given last one first. -/
def attachToHead (n : Node) : List Node → List Node
  | [] => []
  | .element tag children :: rest =>
    if tag.isPage "head" then .element tag (push n children.reverse).reverse :: rest
    else .element tag children :: attachToHead n rest
  | other :: rest => other :: attachToHead n rest

/-- Puts a node into the closed head. -/
def attachHead (n : Node) : Stack → Stack
  | [] => []
  | [f] => [{ f with children := attachToHead n f.children }]
  | f :: g :: rest => f :: attachHead n (g :: rest)

/-- Puts a node where it belongs. -/
def attach (n : Node) : Home → Stack → Stack
  | .within => attachWithin n
  | .beforeTable => attachBeforeTable n
  | .head => attachHead n

/-- Closes the innermost element. -/
def pop : Stack → Stack
  | [] => []
  | f :: rest => attach f.node f.home rest

/-- Closes a number of elements. -/
def popMany : Nat → Stack → Stack
  | 0, s => s
  | n + 1, s => popMany n (pop s)

/-- Closes elements while they are of a kind. -/
def popWhile (p : Frame → Bool) (s : Stack) : Stack :=
  popMany (s.takeWhile p).length s

/-- Closes elements up to one of a kind, that one included. -/
def popThrough (p : Frame → Bool) (s : Stack) : Stack :=
  popMany ((s.takeWhile (!p ·)).length + 1) s

/-- Whether an element of a kind is open, with none that stops the search further in. -/
def isOpenWithin (stops target : Frame → Bool) : Stack → Bool
  | [] => false
  | f :: rest => target f || (!stops f && isOpenWithin stops target rest)

end Stack

namespace Frame

/-- Whether an open element has a name of the page itself. -/
def isPage (name : String) (f : Frame) : Bool :=
  f.tag.isPage name

/-- Whether an open element has one of some names. -/
def isOneOf (names : List String) (f : Frame) : Bool :=
  f.tag.isOneOf names

/-- Elements of drawings and formulas that hold ordinary content. -/
def holdsPage (f : Frame) : Bool :=
  match f.tag.space with
  | .page => false
  | .drawing => ["foreignObject", "desc", "title"].contains f.tag.name
  | .formula => ["mi", "mo", "mn", "ms", "mtext", "annotation-xml"].contains f.tag.name

/-- What an end tag does not look beyond. -/
def bounds (f : Frame) : Bool :=
  f.holdsPage ||
    f.isOneOf ["applet", "caption", "html", "table", "td", "th", "marquee", "object", "template"]

/-- What the end tag of a list item does not look beyond. -/
def boundsItem (f : Frame) : Bool :=
  f.bounds || f.isOneOf ["ol", "ul"]

/-- What the end tag of a paragraph does not look beyond. -/
def boundsParagraph (f : Frame) : Bool :=
  f.bounds || f.isOneOf ["button"]

/-- What the parts of a table do not look beyond. -/
def boundsTable (f : Frame) : Bool :=
  f.isOneOf ["html", "table", "template"]

/-- Elements that content which does not fit in may not enter. -/
def isTablePart (f : Frame) : Bool :=
  f.isOneOf ["table", "tbody", "tfoot", "thead", "tr"]

/-- Elements whose end tag may be left out. -/
def endsByItself (f : Frame) : Bool :=
  f.isOneOf ["dd", "dt", "li", "optgroup", "option", "p", "rb", "rp", "rt", "rtc"]

/-- The headings. -/
def isHeading (f : Frame) : Bool :=
  f.isOneOf ["h1", "h2", "h3", "h4", "h5", "h6"]

/-- Names of elements that an unmatched end tag does not reach through. -/
def specialNames : List String :=
  ["address", "applet", "area", "article", "aside", "base", "basefont", "bgsound", "blockquote",
    "body", "br", "button", "caption", "center", "col", "colgroup", "dd", "details", "dir", "div",
    "dl", "dt", "embed", "fieldset", "figcaption", "figure", "footer", "form", "frame", "frameset",
    "h1", "h2", "h3", "h4", "h5", "h6", "head", "header", "hgroup", "hr", "html", "iframe", "img",
    "input", "keygen", "li", "link", "listing", "main", "marquee", "menu", "meta", "nav",
    "noembed", "noframes", "noscript", "object", "ol", "p", "param", "plaintext", "pre", "script",
    "search", "section", "select", "source", "style", "summary", "table", "tbody", "td",
    "template", "textarea", "tfoot", "th", "thead", "title", "tr", "track", "ul", "wbr", "xmp"]

/-- Elements that an unmatched end tag does not reach through. -/
def isSpecial (f : Frame) : Bool :=
  f.holdsPage || f.isOneOf specialNames

end Frame
end Html
end DocHighlighter
