/-
# Classifying the fragments of a page

Every fragment of a page whose tag is known is replaced by its code block; the
others stay as they are.  The lines of a fragment are the elements of the class
in question at or below it.
-/

import DocHighlighter.Block.Fragment
import DocHighlighter.Html.Rewrite

namespace DocHighlighter

open Html

/-- The fragment that an element is. -/
def Fragment.ofElement (isOld : Bool) (tag : Tag) (children : List Node) : Fragment :=
  ⟨((Selector.ofClass Marks.line).selectIn isOld none (.element tag children)).map
    Node.textContent⟩

/-- The code blocks found so far, and what went wrong. -/
structure Classification where
  blocks : List CodeBlock := []
  fault : Option NoElement := none

namespace Classification

/-- The element of a code block. -/
def elementFor (block : CodeBlock) : Except NoElement Node :=
  elementOf block.markup "pre"

/-- Looks at an element of a page. -/
def visit (isOld : Bool) : Visit Classification := fun parent tag children c =>
  if c.fault.isSome || !(Selector.ofClass Marks.fragment).fits isOld parent tag then ({}, c)
  else
    match (Fragment.ofElement isOld tag children).classify? with
    | none => ({}, c)
    | some block =>
      match elementFor block with
      | .ok new => ({ own := some new }, { c with blocks := c.blocks ++ [block] })
      | .error fault => ({}, { c with fault := some fault })

end Classification

/-- Replaces the fragments of a page by their code blocks. -/
def Html.Page.classify (p : Page) : Page × Classification :=
  p.rewrite (Classification.visit p.isOld) {}

/-- How many fragments a page has. -/
def Html.Page.fragmentCount (p : Page) : Nat :=
  (p.select (Selector.ofClass Marks.fragment)).length

end DocHighlighter
