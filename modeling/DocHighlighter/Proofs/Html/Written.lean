/-
# Texts that write nodes

`Written formatted text ns` says, case by case, that a text writes the nodes `ns` as
the content of a body: a text without `<` writes a text node, a start tag, a written
content and an end tag write an element.  Elements that the reader treats specially
come with what they need: `pre` drops a newline at its start, so its content begins
with no text; `code` goes on until it is closed, so there is none inside another; a
drawing holds shapes only.

Reading gives back what was written: `Written.run` says so for every place in a body
and every rest of the page, by induction on how the text is written.
-/

import DocHighlighter.Proofs.Html.Growing

namespace DocHighlighter
namespace Html

open Token (WrittenTag WrittenAttribute closingText nameOf EndsText)

/-- The name of an element that its start tag opens and its end tag closes, and nothing else
happens. -/
structure IsPlainName (name : String) : Prop where
  opens : ∀ {k : Bool} {b : Builder} (attributes : List Attribute), b.InBody k →
    b.openInBody name attributes false = b.insert ⟨name, attributes, .page⟩
  closes : ∀ {b : Builder} {f : Frame} {s : Stack}, b.stack = f :: s → f.isPage name = true →
    b.closeInBody name = b.onStack Stack.pop
  notParagraph : name ≠ "p"
  hasEndTag : voidNames.contains name = false
  holdsMarkup : plainTextNames.contains name = false

/-- An element as it is written. -/
def elementText (t : WrittenTag) (inner : List Char) : List Char :=
  '<' :: (t.text ++ (inner ++ '<' :: closingText t.name))

/-- No text stands at the beginning. -/
def NoTextFirst (ns : List Node) : Prop :=
  ∀ n ∈ ns.head?, n.isText = false

/-- A text writes shapes, which have no content, with end tags or without. -/
inductive WrittenShapes : List Char → List Node → Prop
  | nil : WrittenShapes [] []
  | selfClosing {t : WrittenTag} {rest : List Char} {ms : List Node} (ht : t.IsPlain)
      (hself : t.selfClosing = true) (hname : nameOf t.name = "path")
      (hrest : WrittenShapes rest ms) :
      WrittenShapes ('<' :: (t.text ++ rest))
        (.element (Foreign.tag .drawing "path" t.readAttributes) [] :: ms)
  | closed {t : WrittenTag} {rest : List Char} {ms : List Node} (ht : t.IsPlain)
      (hself : t.selfClosing = false) (hname : nameOf t.name = "path")
      (hrest : WrittenShapes rest ms) :
      WrittenShapes (elementText t [] ++ rest)
        (.element (Foreign.tag .drawing "path" t.readAttributes) [] :: ms)

/-- A text writes nodes of a body; `formatted` says that formatting may go on there. -/
inductive Written : (formatted : Bool) → List Char → List Node → Prop
  | nil {k : Bool} : Written k [] []
  | text {k : Bool} {w s rest : List Char} {ms : List Node} (hw : '<' ∉ w)
      (hs : Reference.decode false w = s) (hne : s ≠ []) (hnul : '\x00' ∉ s)
      (hms : NoTextFirst ms) (hrest : Written k rest ms) :
      Written k (w ++ rest) (.text s :: ms)
  | plain {k : Bool} {t : WrittenTag} {inner rest : List Char} {ns ms : List Node}
      (ht : t.IsPlain) (hself : t.selfClosing = false) (hname : IsPlainName (nameOf t.name))
      (hinner : Written k inner ns) (hrest : Written k rest ms) :
      Written k (elementText t inner ++ rest)
        (.element ⟨nameOf t.name, t.readAttributes, .page⟩ ns :: ms)
  | pre {k : Bool} {t : WrittenTag} {inner rest : List Char} {ns ms : List Node}
      (ht : t.IsPlain) (hself : t.selfClosing = false) (hname : nameOf t.name = "pre")
      (hns : NoTextFirst ns) (hinner : Written k inner ns) (hrest : Written k rest ms) :
      Written k (elementText t inner ++ rest)
        (.element ⟨"pre", t.readAttributes, .page⟩ ns :: ms)
  | code {t : WrittenTag} {inner rest : List Char} {ns ms : List Node}
      (ht : t.IsPlain) (hself : t.selfClosing = false) (hname : nameOf t.name = "code")
      (hinner : Written true inner ns) (hrest : Written false rest ms) :
      Written false (elementText t inner ++ rest)
        (.element ⟨"code", t.readAttributes, .page⟩ ns :: ms)
  | drawing {k : Bool} {t : WrittenTag} {inner rest : List Char} {ns ms : List Node}
      (ht : t.IsPlain) (hself : t.selfClosing = false) (hname : nameOf t.name = "svg")
      (hinner : WrittenShapes inner ns) (hrest : Written k rest ms) :
      Written k (elementText t inner ++ rest)
        (.element (Foreign.tag .drawing "svg" t.readAttributes) ns :: ms)

theorem noTextFirst_nil : NoTextFirst [] := by
  simp [NoTextFirst]

theorem noTextFirst_element {tag : Tag} {children ms : List Node} :
    NoTextFirst (.element tag children :: ms) := by
  simp [NoTextFirst, Node.isText]

theorem separate_cons {n : Node} {ms : List Node} (hn : n.isText = true → NoTextFirst ms)
    (h : Node.Separate ms) : Node.Separate (n :: ms) := by
  cases ms with
  | nil => exact .singleton n
  | cons m ms => exact List.isChain_cons_cons.2 ⟨fun htext => hn htext m rfl, h⟩

theorem WrittenShapes.separate {text : List Char} {ns : List Node} (h : WrittenShapes text ns) :
    Node.Separate ns := by
  induction h with
  | nil => exact .nil
  | selfClosing _ _ _ _ ih => exact separate_cons (by simp [Node.isText]) ih
  | closed _ _ _ _ ih => exact separate_cons (by simp [Node.isText]) ih

/-- No text follows a text in what is written. -/
theorem Written.separate {k : Bool} {text : List Char} {ns : List Node} (h : Written k text ns) :
    Node.Separate ns := by
  induction h with
  | nil => exact .nil
  | text _ _ _ _ hms _ ih => exact separate_cons (fun _ => hms) ih
  | plain _ _ _ _ _ _ ih => exact separate_cons (by simp [Node.isText]) ih
  | pre _ _ _ _ _ _ _ ih => exact separate_cons (by simp [Node.isText]) ih
  | code _ _ _ _ _ _ ih => exact separate_cons (by simp [Node.isText]) ih
  | drawing _ _ _ _ _ ih => exact separate_cons (by simp [Node.isText]) ih

/-- A written text that does not begin with a text node begins with a start tag, if at all. -/
theorem Written.eq_nil_or_tag {k : Bool} {text : List Char} {ns : List Node}
    (h : Written k text ns) (hns : NoTextFirst ns) :
    text = [] ∨ ∃ (t : WrittenTag) (more : List Char), t.IsPlain ∧
      text = '<' :: (t.text ++ more) := by
  have hstart : ∀ (t : WrittenTag) (inner rest : List Char), elementText t inner ++ rest =
      '<' :: (t.text ++ (inner ++ ('<' :: closingText t.name ++ rest))) := by
    intro t inner rest
    simp [elementText]
  cases h with
  | nil => exact .inl rfl
  | text => exact absurd (hns _ rfl) (by simp [Node.isText])
  | plain ht => exact .inr ⟨_, _, ht, hstart ..⟩
  | pre ht => exact .inr ⟨_, _, ht, hstart ..⟩
  | code ht => exact .inr ⟨_, _, ht, hstart ..⟩
  | drawing ht => exact .inr ⟨_, _, ht, hstart ..⟩

theorem endsText_tag {t : WrittenTag} (ht : t.IsPlain) (rest : List Char) :
    EndsText ('<' :: (t.text ++ rest)) := by
  obtain ⟨c, name, hname, hc⟩ := ht.name.start
  refine .inr ⟨_, rfl, ?_⟩
  rw [WrittenTag.text, hname]
  have hne : c ≠ '/' := by
    rintro rfl
    exact absurd hc (by decide)
  simp only [List.cons_append]
  unfold Token.opensMarkup
  split
  · next h => exact absurd (List.cons.inj h).1 hne
  · next h => rw [← (List.cons.inj h).1, hc]; rfl
  · next h => simp at h

theorem endsText_closing {name : List Char} (h : name ≠ []) (rest : List Char) :
    EndsText ('<' :: (closingText name ++ rest)) := by
  obtain ⟨c, more, rfl⟩ := List.exists_cons_of_ne_nil h
  exact .inr ⟨_, rfl, rfl⟩

/-- What is written behind a text node ends its text, if the page behind does. -/
theorem Written.endsText {k : Bool} {text page : List Char} {ns : List Node}
    (h : Written k text ns) (hns : NoTextFirst ns) (hpage : EndsText page) :
    EndsText (text ++ page) := by
  rcases h.eq_nil_or_tag hns with rfl | ⟨t, more, ht, rfl⟩
  · exact hpage
  · rw [List.cons_append, List.append_assoc]
    exact endsText_tag ht _

end Html
end DocHighlighter
