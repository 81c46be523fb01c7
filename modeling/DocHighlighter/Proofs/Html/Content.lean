/-
# Content that is put together

Written texts stand side by side: what they write is put together (`Written.append`),
as long as no text comes upon a text.  Where one does, the two are one text when they
are read (`joinText`); an escaped text may stand before anything written
(`Written.text_append`), since its references read the same whatever follows.

The names of ordinary elements, and of blocks such as `div`, are plain: their tags open
and close them and do nothing else.
-/

import DocHighlighter.Proofs.Html.WritesBack

namespace DocHighlighter
namespace Html

open Token (WrittenTag WrittenAttribute closingText nameOf EndsText)

variable {k : Bool}

/-! ## Side by side -/

theorem NoTextFirst.append {ms ns : List Node} (hms : NoTextFirst ms) (hns : NoTextFirst ns) :
    NoTextFirst (ms ++ ns) := by
  cases ms with
  | nil => exact hns
  | cons m ms => exact hms

/-- Written texts side by side write their nodes side by side. -/
theorem Written.append {text more : List Char} {ns ms : List Node} (h : Written k text ns)
    (hmore : Written k more ms) (hms : NoTextFirst ms) : Written k (text ++ more) (ns ++ ms) := by
  induction h with
  | nil => exact hmore
  | text hw hs hne hnul hfirst _ ih =>
    rw [List.append_assoc]
    exact .text hw hs hne hnul (hfirst.append hms) (ih hmore)
  | plain ht hself hname hinner _ _ ih =>
    rw [List.append_assoc]
    exact .plain ht hself hname hinner (ih hmore)
  | pre ht hself hname hns hinner _ _ ih =>
    rw [List.append_assoc]
    exact .pre ht hself hname hns hinner (ih hmore)
  | code ht hself hname hinner _ _ ih =>
    rw [List.append_assoc]
    exact .code ht hself hname hinner (ih hmore)
  | drawing ht hself hname hinner _ ih =>
    rw [List.append_assoc]
    exact .drawing ht hself hname hinner (ih hmore)

/-- Elements that are written one by one are written side by side. -/
theorem written_flatMap {α : Type} {texts : α → List Char} {nodes : α → Node} {xs : List α}
    (h : ∀ x ∈ xs, Written k (texts x) [nodes x]) (hnodes : ∀ x ∈ xs, (nodes x).isText = false) :
    Written k (xs.flatMap texts) (xs.map nodes) := by
  induction xs with
  | nil => exact .nil
  | cons x xs ih =>
    have hfirst : NoTextFirst (xs.map nodes) := by
      cases xs with
      | nil => exact noTextFirst_nil
      | cons y ys =>
        intro n hn
        obtain rfl := Option.some.inj hn
        exact hnodes y (List.mem_cons_of_mem _ List.mem_cons_self)
    rw [List.flatMap_cons, List.map_cons]
    exact (h x List.mem_cons_self).append
      (ih (fun y hy => h y (List.mem_cons_of_mem _ hy))
        fun y hy => hnodes y (List.mem_cons_of_mem _ hy)) hfirst

/-- Puts a text before nodes; it goes on in a text at their beginning. -/
def joinText (s : List Char) : List Node → List Node
  | .text t :: ns => .text (s ++ t) :: ns
  | ns => if s.isEmpty then ns else .text s :: ns

theorem joinText_of_noTextFirst {s : List Char} {ns : List Node} (h : NoTextFirst ns) :
    joinText s ns = if s.isEmpty then ns else .text s :: ns := by
  unfold joinText
  split
  · exact absurd (h _ rfl) (by simp [Node.isText])
  · rfl

theorem textContents_joinText (s : List Char) (ns : List Node) :
    Node.textContents (joinText s ns) = s ++ Node.textContents ns := by
  unfold joinText
  split
  · simp [Node.textContents, Node.textContent]
  · split
    · next h => simp [List.isEmpty_iff.1 h]
    · simp [Node.textContents, Node.textContent]

/-- An escaped text may stand before anything written. -/
theorem Written.text_append {f : Char → List Char} (hf : Escape f) {s rest : List Char}
    {ns : List Node} (hs : '\x00' ∉ s) (h : Written k rest ns) :
    Written k (s.flatMap f ++ rest) (joinText s ns) := by
  have hfresh : NoTextFirst ns → Written k (s.flatMap f ++ rest) (joinText s ns) := by
    intro hns
    rw [joinText_of_noTextFirst hns]
    split
    · next he =>
      rw [List.isEmpty_iff.1 he]
      exact h
    · next hne =>
      exact .text (hf.bracket_not_mem s) (hf.decode_flatMap false s) (by simpa using hne) hs hns h
  cases h with
  | @text _ w t rest ms hw ht hne hnul hms hrest =>
    have hdecode : Reference.decode false (s.flatMap f ++ w) = s ++ t := by
      rw [Reference.decode_flatMap (fun c _ => hf.spells false c) w, ht]
    have hbracket : '<' ∉ s.flatMap f ++ w := by
      intro hmem
      exact (List.mem_append.1 hmem).elim (hf.bracket_not_mem s) hw
    have hboth : '\x00' ∉ s ++ t := by
      intro hmem
      exact (List.mem_append.1 hmem).elim hs hnul
    rw [← List.append_assoc]
    exact .text hbracket hdecode (by simp [hne]) hboth hms hrest
  | nil => exact hfresh noTextFirst_nil
  | plain => exact hfresh noTextFirst_element
  | pre => exact hfresh noTextFirst_element
  | code => exact hfresh noTextFirst_element
  | drawing => exact hfresh noTextFirst_element

/-- A text as the only content, if it is one at all. -/
def textNodes (s : List Char) : List Node :=
  joinText s []

theorem textNodes_eq (s : List Char) :
    textNodes s = if s.isEmpty then [] else [.text s] :=
  joinText_of_noTextFirst noTextFirst_nil

theorem textContents_textNodes (s : List Char) : Node.textContents (textNodes s) = s := by
  rw [textNodes, textContents_joinText, Node.textContents, List.append_nil]

theorem written_textNodes {f : Char → List Char} (hf : Escape f) {s : List Char}
    (hs : '\x00' ∉ s) : Written k (s.flatMap f) (textNodes s) := by
  have h := Written.text_append (k := k) hf hs .nil
  rwa [List.append_nil] at h

/-! ## Tags with one attribute -/

/-- The tag of a name with one attribute, as it is written. -/
def singleTag (name key : String) (value : List Char) : WrittenTag :=
  ⟨name.toList, [⟨key.toList, value⟩], false⟩

theorem singleTag_isPlain {name key : String} {value : List Char}
    (hname : Token.IsTagName name.toList)
    (hkey : key.toList ≠ [] ∧ ∀ c ∈ key.toList, c ∉ Token.nameSigns)
    (hvalue : '"' ∉ value) : (singleTag name key value).IsPlain := by
  refine ⟨hname, fun a ha => ?_, by simp [WrittenTag.readAttributes, singleTag]⟩
  obtain rfl := List.mem_singleton.1 ha
  exact ⟨hkey.1, hkey.2, hvalue⟩

theorem singleTag_readAttributes {name key : String} {value v : List Char}
    (hkey : nameOf key.toList = key)
    (hvalue : Reference.decode true value = v) (hnul : '\x00' ∉ v) :
    (singleTag name key value).readAttributes = [⟨key, v⟩] := by
  simp only [WrittenTag.readAttributes, singleTag, List.map_cons, List.map_nil,
    WrittenAttribute.read, hkey, hvalue, withoutNul_of_not_mem hnul]

/-- The signs that a class does not have, if it is to be written as it is. -/
def classSigns : List Char :=
  ['"', '&', '<', '\n', '\r', '\x00']

/-- A tag with such a class reads back. -/
theorem singleTag_class {name : String} {value : List Char} (hname : Token.IsTagName name.toList)
    (hvalue : ∀ d ∈ classSigns, d ∉ value) : (singleTag name "class" value).IsPlain ∧
      (singleTag name "class" value).readAttributes = [⟨"class", value⟩] :=
  ⟨singleTag_isPlain hname (by decide) (hvalue _ (by decide)),
    singleTag_readAttributes (by decide) (Reference.decode_of_not_mem (hvalue _ (by decide)))
      (hvalue _ (by decide))⟩

theorem return_not_mem_singleTag {name key : String} {value inner : List Char}
    (hname : '\r' ∉ name.toList) (hkey : '\r' ∉ key.toList) (hvalue : '\r' ∉ value)
    (hinner : '\r' ∉ inner) : '\r' ∉ elementText (singleTag name key value) inner := by
  simp [elementText, singleTag, WrittenTag.text, WrittenAttribute.text, Token.tagEnd, closingText,
    hname, hkey, hvalue, hinner]

/-- The markup of an element has no return, if its parts have none. -/
theorem return_not_mem_markupIn {name key : String} {value : List Char} {children : List Node}
    (hname : '\r' ∉ name.toList) (hkey : '\r' ∉ key.toList) (hvalue : '\r' ∉ value)
    (hvoid : voidNames.contains name = false) (hplain : plainTextNames.contains name = false)
    (hchildren : '\r' ∉ Node.markupsIn false children) :
    '\r' ∉ (Node.element ⟨name, [⟨key, value⟩], .page⟩ children).markupIn false := by
  have hescaped : '\r' ∉ value.flatMap valueChar :=
    fun h => hvalue (escape_valueChar.mem_of_mem_flatMap (by decide) h)
  rw [markupIn_page _ _ hvoid hplain]
  exact return_not_mem_singleTag hname hkey hescaped hchildren

theorem return_not_mem_div {value inner : List Char} (hvalue : '\r' ∉ value)
    (hinner : '\r' ∉ inner) : '\r' ∉ elementText (singleTag "div" "class" value) inner :=
  return_not_mem_singleTag (by decide) (by decide) hvalue hinner

theorem return_not_mem_divMarkup {value : List Char} {children : List Node}
    (hvalue : '\r' ∉ value) (hchildren : '\r' ∉ Node.markupsIn false children) :
    '\r' ∉ (Node.element ⟨"div", [⟨"class", value⟩], .page⟩ children).markupIn false :=
  return_not_mem_markupIn (by decide) (by decide) hvalue (by decide) (by decide) hchildren

/-! ## Plain names -/

theorem isPlainName_div : IsPlainName "div" := by
  refine ⟨fun {k b} attributes hb => ?_, fun {b f s} hs hname => ?_, by simp, rfl, rfl⟩
  · have hopen : b.openInBody "div" attributes false =
        b.closeParagraph.insert ⟨"div", attributes, .page⟩ := rfl
    rw [hopen, hb.closeParagraph_eq]
  · exact Builder.closeWithin_top hs hname

/-- A block with a class writes itself around what is written in it. -/
theorem written_div {value inner : List Char} {ns : List Node}
    (hvalue : ∀ d ∈ classSigns, d ∉ value) (h : Written k inner ns) :
    Written k (elementText (singleTag "div" "class" value) inner ++ [])
      [.element ⟨"div", [⟨"class", value⟩], .page⟩ ns] := by
  obtain ⟨ht, hread⟩ := singleTag_class (by decide : Token.IsTagName "div".toList) hvalue
  have hname : nameOf "div".toList = "div" := by decide
  have helement := Written.plain ht rfl (by simp only [singleTag, hname]; exact isPlainName_div)
    h .nil
  rw [hread] at helement
  simp only [singleTag, hname] at helement
  exact helement

/-- The names of elements that no rule of the body mentions. -/
structure IsOrdinaryName (name : String) : Prop where
  opens : ∀ (b : Builder) (attributes : List Attribute),
    b.openInBody name attributes false = b.restart.insert ⟨name, attributes, .page⟩
  closes : ∀ b : Builder, b.closeInBody name = b.onOpen (·.close name)
  notParagraph : name ≠ "p"
  hasEndTag : voidNames.contains name = false
  holdsMarkup : plainTextNames.contains name = false

theorem IsOrdinaryName.isPlainName {name : String} (h : IsOrdinaryName name) :
    IsPlainName name := by
  refine ⟨fun {k b} attributes hb => ?_, fun {b f s} hs hname => ?_, h.notParagraph, h.hasEndTag,
    h.holdsMarkup⟩
  · rw [h.opens, hb.restart_eq]
  · rw [h.closes, Builder.close_top hs hname]

theorem isPlainName_span : IsPlainName "span" :=
  IsOrdinaryName.isPlainName ⟨fun _ _ => rfl, fun _ => rfl, by simp, rfl, rfl⟩

end Html
end DocHighlighter
