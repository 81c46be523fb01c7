/-
# Replacing elements of a page

`Page.rewrite` goes through a page in its order and asks at every element what
to put in the place of that element, or of the one around it.  What is asked
about is always the page as it was: a replacement does not change what is still
to come.  So elements inside a replaced one are still asked about, for what the
answers say beside the replacement, but their own replacements do not show.

Of two replacements for one element the first counts.
-/

import DocHighlighter.Html.Selector

namespace DocHighlighter
namespace Html

/-- What to put in the place of an element, and of the one around it. -/
structure Replacement where
  own : Option Node := none
  around : Option Node := none

/-- What is asked at an element: the tag around it, its own tag, its children, and the answers so
far. -/
abbrev Visit (σ : Type) := Option Tag → Tag → List Node → σ → Replacement × σ

variable {σ : Type}

mutual

/-- The node in the place of a node, what to put in the place of the one around it, and the
answers. -/
def rewriteIn (visit : Visit σ) (parent : Option Tag) : Node → σ → Node × Option Node × σ
  | .text content, s => (.text content, none, s)
  | .comment content, s => (.comment content, none, s)
  | .element tag children, s =>
    let (r, s) := visit parent tag children s
    let (inside, fromInside, s) := rewriteAll visit (some tag) children s
    ((r.own.orElse fun _ => fromInside).getD (.element tag inside), r.around, s)

/-- The nodes in the places of nodes that stand side by side. -/
def rewriteAll (visit : Visit σ) (parent : Option Tag) :
    List Node → σ → List Node × Option Node × σ
  | [], s => ([], none, s)
  | n :: rest, s =>
    let (n, first, s) := rewriteIn visit parent n s
    let (rest, second, s) := rewriteAll visit parent rest s
    (n :: rest, first.orElse fun _ => second, s)

end

/-- Replaces elements of a page. -/
def Page.rewrite (p : Page) (visit : Visit σ) (s : σ) : Page × σ :=
  match p.root with
  | .element tag children =>
    let (r, s) := visit none tag children s
    let (inside, fromInside, s) := rewriteAll visit (some tag) children s
    let new := r.own.orElse fun _ => fromInside
    ({ p with root := .element tag inside, shown := p.shown.orElse fun _ => new }, s)
  | _ => (p, s)

end Html
end DocHighlighter
