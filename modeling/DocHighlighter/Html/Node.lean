/-
# Trees of markup

A node is a text, a comment or an element.  An element has a tag, which is its
name with its attributes, and children in order.  Names of elements belong to a
space: those of the page itself, of drawings, or of formulas.

The classes of a tag are the blank-separated parts of its `class` attribute, in
the wide sense of blank (`Tag.classes`).
-/

import DocHighlighter.Text.Lines

namespace DocHighlighter
namespace Html

/-- What an element's name belongs to. -/
inductive Space where
  | page
  | drawing
  | formula
  deriving DecidableEq

/-- A named value of an element. -/
structure Attribute where
  name : String
  value : List Char
  deriving DecidableEq

/-- The name and the attributes of an element. -/
structure Tag where
  name : String
  attributes : List Attribute := []
  space : Space := .page
  deriving DecidableEq

/-- A tree of markup. -/
inductive Node where
  | text (content : List Char)
  | comment (content : List Char)
  | element (tag : Tag) (children : List Node)

namespace Tag

/-- The value of an attribute. -/
def attribute? (t : Tag) (name : String) : Option (List Char) :=
  (t.attributes.find? (·.name == name)).map (·.value)

/-- The classes of a tag, in order and with repetitions. -/
def classes (t : Tag) : List String :=
  (Text.fields Text.isBlank ((t.attribute? "class").getD [])).map String.ofList

/-- Whether a tag has a name of the page itself. -/
def isPage (t : Tag) (name : String) : Bool :=
  t.space == .page && t.name == name

/-- Whether a tag has one of some names of the page itself. -/
def isOneOf (t : Tag) (names : List String) : Bool :=
  t.space == .page && names.contains t.name

end Tag

namespace Node

mutual

/-- Whether two nodes are the same. -/
def decEq : (m n : Node) → Decidable (m = n)
  | text s, text t => decidable_of_iff (s = t) (by rw [text.injEq])
  | comment s, comment t => decidable_of_iff (s = t) (by rw [comment.injEq])
  | element tag ms, element tag' ns =>
    have := decEqAll ms ns
    decidable_of_iff (tag = tag' ∧ ms = ns) (by rw [element.injEq])
  | text _, comment _ => isFalse nofun
  | text _, element _ _ => isFalse nofun
  | comment _, text _ => isFalse nofun
  | comment _, element _ _ => isFalse nofun
  | element _ _, text _ => isFalse nofun
  | element _ _, comment _ => isFalse nofun

/-- Whether nodes that stand side by side are the same. -/
def decEqAll : (ms ns : List Node) → Decidable (ms = ns)
  | [], [] => isTrue rfl
  | m :: ms, n :: ns =>
    have := decEq m n
    have := decEqAll ms ns
    decidable_of_iff (m = n ∧ ms = ns) (by rw [List.cons.injEq])
  | [], _ :: _ => isFalse nofun
  | _ :: _, [] => isFalse nofun

end

instance : DecidableEq Node := decEq

mutual

/-- The text below a node, comments left out. -/
def textContent : Node → List Char
  | text content => content
  | comment _ => []
  | element _ children => textContents children

/-- The text below nodes. -/
def textContents : List Node → List Char
  | [] => []
  | n :: rest => n.textContent ++ textContents rest

end

/-- The text below nodes is the texts below them, one after the other. -/
theorem textContents_eq_flatMap (nodes : List Node) :
    textContents nodes = nodes.flatMap textContent := by
  induction nodes with
  | nil => rfl
  | cons n rest ih => rw [textContents, ih, List.flatMap_cons]

/-- The tag of an element. -/
def tag? : Node → Option Tag
  | text _ => none
  | comment _ => none
  | element tag _ => some tag

end Node
end Html
end DocHighlighter
