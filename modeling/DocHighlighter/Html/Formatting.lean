/-
# Formatting that goes on

Elements such as `b` and `code` that a page does not close in order go on: what
follows is put into new elements with the same tags.  The list of formatting
holds the tags in question, the last one first, with marks that separate the
contents of cells and captions from what is around them.

* `restart` opens again what was cut off.
* `adopt` ends a formatting element that is closed out of order.  Of the blocks
  inside it the outermost is taken out, and new copies of the formatting go into
  and around it.
-/

import DocHighlighter.Html.Stack

namespace DocHighlighter
namespace Html

/-- A piece of formatting, or a mark that hides what is before it. -/
inductive Format where
  | mark
  | element (id : Nat) (tag : Tag)

namespace Format

/-- Whether an entry is a mark. -/
def isMark : Format → Bool
  | mark => true
  | element _ _ => false

/-- Whether an entry is the element of a number. -/
def hasId (id : Nat) : Format → Bool
  | mark => false
  | element i _ => i == id

/-- Whether an entry is an element of a name. -/
def hasName (name : String) : Format → Bool
  | mark => false
  | element _ tag => tag.name == name

/-- Whether an entry has a tag. -/
def hasTag (tag : Tag) : Format → Bool
  | mark => false
  | element _ t => t == tag

end Format

/-- Open elements, the formatting that goes on, and the number of the next element. -/
structure Open where
  stack : Stack := []
  formatting : List Format := []
  nextId : Nat := 0

namespace Open

/-- Opens an element. -/
def push (o : Open) (tag : Tag) (home : Home) : Open :=
  { o with stack := ⟨tag, o.nextId, home, []⟩ :: o.stack, nextId := o.nextId + 1 }

/-- Takes an element from the formatting. -/
def forget (o : Open) (id : Nat) : Open :=
  { o with formatting := o.formatting.filter (!·.hasId id) }

/-- Takes the last entry of a kind from a list. -/
def dropLast (p : Format → Bool) (entries : List Format) : List Format :=
  let tail := entries.reverse
  (tail.takeWhile (!p ·) ++ (tail.dropWhile (!p ·)).drop 1).reverse

/-- Opens a formatting element; of more than three alike the oldest is forgotten. -/
def pushFormat (o : Open) (tag : Tag) (home : Home) : Open :=
  let recent := o.formatting.takeWhile (!·.isMark)
  let older := o.formatting.dropWhile (!·.isMark)
  let recent :=
    if (recent.filter (·.hasTag tag)).length ≥ 3 then dropLast (·.hasTag tag) recent else recent
  { o.push tag home with formatting := .element o.nextId tag :: recent ++ older }

/-- Marks the formatting. -/
def mark (o : Open) : Open :=
  { o with formatting := .mark :: o.formatting }

/-- Takes away the formatting since the last mark, and the mark. -/
def unmark (o : Open) : Open :=
  { o with formatting := (o.formatting.dropWhile (!·.isMark)).drop 1 }

/-- Whether an element is open. -/
def isOpen (o : Open) (id : Nat) : Bool :=
  o.stack.any (·.id == id)

/-- Whether formatting needs no new element: it is a mark or its element is open. -/
def isSettled (o : Open) : Format → Bool
  | .mark => true
  | .element id _ => o.isOpen id

/-- Opens elements for formatting that was cut off, given the oldest first. -/
def restartAll (home : Stack → Home) : List Format → Open → Open
  | [], o => o
  | .mark :: rest, o => restartAll home rest o
  | .element _ tag :: rest, o =>
    let opened := o.push tag (home o.stack)
    restartAll home rest { opened with formatting := .element o.nextId tag :: o.formatting }

/-- Opens again the formatting that was cut off since the last mark or open element. -/
def restart (home : Stack → Home) (o : Open) : Open :=
  let lost := o.formatting.takeWhile (!o.isSettled ·)
  restartAll home lost.reverse
    { o with formatting := o.formatting.dropWhile (!o.isSettled ·) }

/-- Closes elements for the end tag of a name: up to the innermost element of the name, unless a
special element is further in. -/
def close (o : Open) (name : String) : Open :=
  match o.stack.find? fun f => f.isPage name || f.isSpecial with
  | none => o
  | some f =>
    if f.isPage name then
      { o with stack := o.stack.popThrough (·.id == f.id) }
    else o

/-- Copies of the formatting between a block and the formatting element around it.  The elements
are given innermost first; only the first three that go on are copied, the others are forgotten.
Gives the copies, innermost first, and the number of the innermost one. -/
def copyBetween : Nat → List Frame → Open → List Frame × Option Nat × Open
  | _, [], o => ([], none, o)
  | n, f :: rest, o =>
    if o.formatting.any (·.hasId f.id) then
      if n < 3 then
        let id := o.nextId
        let formatting := o.formatting.map fun e =>
          if e.hasId f.id then .element id f.tag else e
        let (copies, _, o) :=
          copyBetween (n + 1) rest { o with formatting := formatting, nextId := id + 1 }
        (⟨f.tag, id, .within, []⟩ :: copies, some id, o)
      else copyBetween (n + 1) rest (o.forget f.id)
    else copyBetween (n + 1) rest o

/-- Gives the outermost of some frames, innermost first, its home. -/
def settle (home : Home) : List Frame → List Frame
  | [] => []
  | [f] => [{ f with home := home }]
  | f :: rest => f :: settle home rest

/-- Takes a block out of the formatting element around it.  The open elements are given in parts:
those inside the block, the block, those between it and the formatting element, that element, and
those around it. -/
def takeOut (home : Stack → Home) (inner : Stack) (block : Frame) (between : Stack)
    (format : Frame) (outer : Stack) (o : Open) : Open :=
  let (copies, first, o) := copyBetween 0 between o
  let outer := Stack.popMany (between.length + 1) (between ++ format :: outer)
  let copy : Frame := ⟨format.tag, o.nextId, .within, block.children⟩
  let entry := Format.element o.nextId format.tag
  let formatting := match first with
    | none => o.formatting.map fun e => if e.hasId format.id then entry else e
    | some id => (o.formatting.filter (!·.hasId format.id)).flatMap fun e =>
        if e.hasId id then [entry, e] else [e]
  let moved := settle (home outer) ({ block with children := [] } :: copies)
  ⟨inner ++ copy :: moved ++ outer, formatting, o.nextId + 1⟩

/-- Ends formatting elements of a name, at most `n` of them. -/
def adoptMany (home : Stack → Home) (name : String) : Nat → Open → Open
  | 0, o => o
  | n + 1, o =>
    match (o.formatting.takeWhile (!·.isMark)).find? (·.hasName name) with
    | none => o.close name
    | some .mark => o
    | some (.element id _) =>
      match o.stack.dropWhile (·.id != id) with
      | [] => o.forget id
      | format :: outer =>
        let inside := o.stack.takeWhile (·.id != id)
        if inside.any Frame.bounds then o
        else
          let below := (inside.reverse.takeWhile (!·.isSpecial)).reverse
          match (inside.reverse.dropWhile (!·.isSpecial)) with
          | [] => { o with stack := o.stack.popMany (inside.length + 1) }.forget id
          | block :: inner =>
            adoptMany home name n (takeOut home inner.reverse block below format outer o)

/-- Ends formatting for the end tag of a name. -/
def adopt (home : Stack → Home) (name : String) (o : Open) : Open :=
  match o.stack with
  | f :: _ =>
    if f.isPage name && !(o.formatting.any (·.hasId f.id)) then { o with stack := o.stack.pop }
    else adoptMany home name 8 o
  | [] => o

end Open
end Html
end DocHighlighter
