/-
# Pages

A page is a tree, its root, with what stands before and behind it.  Replacing
the root itself puts something else in its place on the page, while searches go
on from the root (`shown`).

`Page.read` makes a page of a text: every text is one.  `Page.markup` writes it.
-/

import DocHighlighter.Html.Builder
import DocHighlighter.Html.Markup

namespace DocHighlighter
namespace Html

/-- A parsed page. -/
structure Page where
  /-- Whether the page declares no kind, or an old one. -/
  isOld : Bool := false
  before : List Outer := []
  root : Node
  /-- What stands in the place of the root, if it was replaced. -/
  shown : Option Node := none
  after : List Outer := []

/-- What stands beside the root, as markup. -/
def Outer.markup : Outer → List Char
  | doctype name =>
    ['<', '!', 'D', 'O', 'C', 'T', 'Y', 'P', 'E', ' '] ++ name ++ ['>']
  | comment content => '<' :: '!' :: '-' :: '-' :: content ++ ['-', '-', '>']

/-- Closes all that is open and takes the page out. -/
def Builder.finish (b : Builder) : Page :=
  let b := b.endText.complete
  match b.stack.popMany (b.stack.length - 1) with
  | [] => { root := .element ⟨"html", [], .page⟩ [] }
  | f :: _ => {
      isOld := b.isOld
      before := b.before.reverse
      root := .element f.tag (f.children.reverse ++ b.behindBody.reverse)
      after := b.after.reverse }

namespace Page

/-- The page that a text is. -/
def read (text : List Char) : Page :=
  (({} : Builder).run (Text.unifyNewlines text)).finish

/-- A page as markup. -/
def markup (p : Page) : List Char :=
  p.before.flatMap Outer.markup ++ (p.shown.getD p.root).markup ++ p.after.flatMap Outer.markup

end Page
end Html
end DocHighlighter
