/-
# Selectors

A selector describes elements by their names, classes and attributes, and
perhaps by the element around them.  `Selector.select` finds the elements below
a node that it describes, that node included, in the order of the page.

A class of a selector is looked for among the parts of the `class` attribute
between markup blanks; on an old page the case of letters does not count.
-/

import DocHighlighter.Html.Page
import DocHighlighter.Text.Escape

namespace DocHighlighter
namespace Html

/-- What one element must be like. -/
structure Simple where
  name : Option String := none
  classes : List String := []
  /-- An attribute and a text that its value has somewhere. -/
  attributePart : Option (String × List Char) := none

/-- What an element must be like, and the element around it. -/
structure Selector where
  own : Simple
  parent : Option Simple := none

namespace Tag

/-- The parts of the `class` attribute between markup blanks. -/
def markupClasses (t : Tag) : List (List Char) :=
  Text.fields Text.isMarkupBlank ((t.attribute? "class").getD [])

/-- Whether a selector finds a class on a tag. -/
def selectsClass (isOld : Bool) (name : String) (t : Tag) : Bool :=
  let fold (text : List Char) : List Char := if isOld then text.map Char.toLower else text
  t.markupClasses.any fun c => fold c == fold name.toList

end Tag

/-- Whether a text stands somewhere in another. -/
def isPartOf (part : List Char) : List Char → Bool
  | [] => part.isEmpty
  | c :: rest => part.isPrefixOf (c :: rest) || isPartOf part rest

/-- Whether a tag is as described. -/
def Simple.fits (isOld : Bool) (s : Simple) (t : Tag) : Bool :=
  s.name.all (· == t.name) && s.classes.all (t.selectsClass isOld ·) &&
    s.attributePart.all fun (name, part) => (t.attribute? name).any (isPartOf part)

namespace Selector

/-- The elements of a name. -/
def ofName (name : String) : Selector :=
  { own := { name := some name } }

/-- The elements with a class. -/
def ofClass (name : String) : Selector :=
  { own := { classes := [name] } }

/-- Whether an element with this tag, around it one with that tag, is described. -/
def fits (isOld : Bool) (s : Selector) (parent : Option Tag) (t : Tag) : Bool :=
  s.own.fits isOld t && s.parent.all fun around => parent.any (around.fits isOld)

/-- Reads the description of one element: a name, classes after dots. -/
def readSimple (text : List Char) : Simple :=
  match Text.splitAt '.' text with
  | [] => {}
  | name :: classes => {
      name := if name.isEmpty then none else some (String.ofList name)
      classes := classes.map String.ofList }

/-- Reads a selector. -/
def read (text : String) : Selector :=
  match Text.fields (fun c => Text.isMarkupBlank c || c == '>') text.toList with
  | [parent, own] => ⟨readSimple own, some (readSimple parent)⟩
  | parts => ⟨readSimple parts.flatten, none⟩

mutual

/-- The elements that a selector describes, in the order of the page. -/
def selectIn (isOld : Bool) (s : Selector) (parent : Option Tag) : Node → List Node
  | .text _ => []
  | .comment _ => []
  | .element tag children =>
    let below := selectAll isOld s (some tag) children
    if s.fits isOld parent tag then .element tag children :: below else below

/-- The elements that a selector describes at or below some nodes. -/
def selectAll (isOld : Bool) (s : Selector) (parent : Option Tag) : List Node → List Node
  | [] => []
  | n :: rest => selectIn isOld s parent n ++ selectAll isOld s parent rest

end

end Selector

/-- The elements of a page that a selector describes. -/
def Page.select (p : Page) (s : Selector) : List Node :=
  s.selectIn p.isOld none p.root

/-- A snippet without the element that is looked for. -/
structure NoElement where
  selector : String
  markup : List Char

/-- The message about a snippet without the element that is looked for. -/
def NoElement.message (e : NoElement) : String :=
  "Snippet has no element matching " ++ Text.quoted e.selector ++ ": " ++
    Text.quoted (String.ofList (e.markup.take 80))

/-- The first element of a snippet that a selector describes. -/
def elementOf (markup : List Char) (selector : String) : Except NoElement Node :=
  match ((Page.read markup).select (Selector.read selector)).head? with
  | some n => .ok n
  | none => .error ⟨selector, markup⟩

end Html
end DocHighlighter
