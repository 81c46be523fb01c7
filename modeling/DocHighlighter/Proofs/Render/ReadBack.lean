/-
# What is written into attributes is read back

Highlighting writes the classes of a block into new tags, and a copy button gets a title; both are
then read from markup.  Whatever characters there are in them, they come back
(`Html.Page.attributes_readBack`).

| written | is read back because |
|---|---|
| classes | they have no blanks and are joined by blanks (`Highlighting.fields_joined`) |
| titles | a button in a wrapper begins in the block or has the title (`startsIn_wrappedText`) |

A block of its own may have buttons, so the title is told only of those that are added: these do not
come from a start tag that begins in the markup of the block.
-/

import DocHighlighter.Proofs.Block.Completed
import DocHighlighter.Proofs.Html.Origins
import DocHighlighter.Proofs.Render.Buttons

namespace DocHighlighter

open Html
open Text (unifyNewlines)
open Token (WrittenTag nameOf closingText)

/-! ## Classes -/

/-- Classes are not empty, and have no blanks. -/
theorem Html.Tag.of_mem_classes {t : Tag} {name : String} (h : name ∈ t.classes) :
    name.toList ≠ [] ∧ ∀ c ∈ name.toList, Text.isBlank c = false := by
  obtain ⟨field, hfield, rfl⟩ := List.mem_map.1 h
  rw [String.toList_ofList]
  exact ⟨Text.ne_nil_of_mem_fields hfield, fun c hc => (Text.mem_of_mem_fields hfield c hc).2⟩

namespace Highlighting

/-- **Joined classes are split** as they were. -/
theorem fields_joined {classes : List String}
    (h : ∀ name ∈ classes, name.toList ≠ [] ∧ ∀ c ∈ name.toList, Text.isBlank c = false) :
    Text.fields Text.isBlank (joined classes) = classes.map String.toList := by
  induction classes with
  | nil => rfl
  | cons first rest ih =>
    obtain ⟨⟨hne, hplain⟩, hrest⟩ := List.forall_mem_cons.1 h
    cases rest with
    | nil => exact Text.fields_of_forall_not hne hplain
    | cons second rest =>
      rw [joined_cons first (List.cons_ne_nil _ _), Text.fields_append (by decide),
        Text.fields_of_forall_not hne hplain, ih hrest]
      rfl

/-- A tag with joined classes has these classes. -/
theorem classes_of_joined {name : String} {classes : List String}
    (h : ∀ c ∈ classes, c.toList ≠ [] ∧ ∀ a ∈ c.toList, Text.isBlank a = false) :
    Tag.classes ⟨name, [⟨"class", joined classes⟩], .page⟩ = classes := by
  have hvalue : Tag.attribute? ⟨name, [⟨"class", joined classes⟩], .page⟩ "class" =
      some (joined classes) := rfl
  rw [Tag.classes, hvalue, Option.getD_some, fields_joined h, List.map_map]
  exact List.map_id'' (fun _ => String.ofList_toList) classes

theorem classes_preTag (pre : Tag) : (preTag pre).classes = pre.classes ++ [Marks.highlighted] := by
  have hmark : ∀ name ∈ [Marks.highlighted],
      name.toList ≠ [] ∧ ∀ c ∈ name.toList, Text.isBlank c = false := by
    decide
  exact classes_of_joined (List.forall_mem_append.2 ⟨fun _ => Tag.of_mem_classes, hmark⟩)

theorem classes_codeTag (code : Tag) : (codeTag code).classes = code.classes :=
  classes_of_joined fun _ => Tag.of_mem_classes

/-- **What a visit puts in the place of the element around** is a new block for that element and the
code that is visited, if neither has a U+0000. -/
theorem isNewBlock_of_around {isOld : Bool} {h : Highlighting} {q : PagePlace} {new : Node}
    (hparent : ∀ pre ∈ q.parent, pre.NulFree) (hfree : q.node.NulFree)
    (hnew : (visit isOld q.parent q.tag q.children h).1.around = some new) :
    ∃ pre, q.parent = some pre ∧ IsNewBlock pre q.tag new := by
  obtain hnone | ⟨pre, language, spans, made, hpre, -, -, hspans, hread, hmade⟩ :=
    replacement_cases isOld h q
  · rw [PagePlace.replacement] at hnone
    rw [hnone] at hnew
    cases hnew
  · rw [PagePlace.replacement] at hmade
    rw [hmade] at hnew
    obtain rfl : made = new := Option.some.inj hnew
    obtain ⟨htag, hchildren⟩ := hfree.of_element
    obtain ⟨ns, hns, hspan⟩ := exists_read_of_highlight (hparent pre hpre) htag
      (Node.NulFree.not_mem_textContents hchildren) hspans
    obtain rfl := Except.ok.inj (hread.symm.trans hns)
    exact ⟨pre, hpre, .intro hspan⟩

end Highlighting

/-! ## Titles -/

theorem bracket_not_mem_singleTag {name key : String} {value : List Char}
    (hname : '<' ∉ name.toList) (hkey : '<' ∉ key.toList) (hvalue : '<' ∉ value) :
    '<' ∉ (singleTag name key value).text := by
  simp [singleTag, WrittenTag.text, Token.WrittenAttribute.text, Token.tagEnd, hname, hkey, hvalue]

namespace CopyButtons

variable {own title : List Char} {attributes : List Attribute}

/-- What stands behind a block in its wrapper. -/
def behindBlock (title : List Char) : List Char :=
  CodeBlock.buttonText title ++ '<' :: closingText "div".toList

/-- Behind the start tag of the button no other button begins. -/
theorem not_startsIn_icon :
    ¬ StartsIn (Marks.copyIcon.toList ++ '<' :: (closingText Marks.copyButton.toList ++
      '<' :: closingText "div".toList)) [] Marks.copyButton attributes := by
  rintro ⟨rest, selfClosing, hrest, hread⟩
  have hname := Token.name_of_opening hread
  rw [List.append_nil] at hname
  have hnames : ∀ tail ∈ (Marks.copyIcon.toList ++ '<' :: (closingText Marks.copyButton.toList ++
      '<' :: closingText "div".toList)).tails, tail.head? = some '<' →
        Marks.copyButton ≠ nameOf (tail.tail.takeWhile (!Token.endsName ·)) := by
    unfold Marks.copyIcon
    simp only [String.toList_append]
    repeat rw [String.toList_ofList]
    decide +kernel
  exact hnames _ ((List.mem_tails _ _).2 hrest) rfl hname

/-- Behind a block one button begins, and it has the title. -/
theorem attributes_behindBlock (htitle : '\x00' ∉ title)
    (h : StartsIn (behindBlock title) [] Marks.copyButton attributes) :
    attributes = [⟨"title", title⟩] := by
  obtain ⟨hplain, hread⟩ := CodeBlock.singleTag_title title
  rw [withoutNul_of_not_mem htitle] at hread
  have htext : behindBlock title =
      '<' :: ((singleTag Marks.copyButton "title" (title.flatMap Text.escapeQuotedChar)).text ++
        (Marks.copyIcon.toList ++ '<' :: (closingText Marks.copyButton.toList ++
          '<' :: closingText "div".toList))) := by
    simp [behindBlock, CodeBlock.buttonText, elementText, singleTag]
  have hbracket := bracket_not_mem_singleTag (by decide : '<' ∉ Marks.copyButton.toList)
    (by decide : '<' ∉ "title".toList) (escape_escapeQuotedChar.bracket_not_mem title)
  rw [htext] at h
  obtain ⟨-, hattributes⟩ | hlater := h.of_written hplain hbracket
  · exact hattributes.trans hread
  · exact absurd hlater not_startsIn_icon

/-- **A button that begins in a wrapper** begins in the block, or it has the title. -/
theorem startsIn_wrappedText (htitle : '\x00' ∉ title)
    (h : StartsIn (CodeBlock.wrappedText title own) [] Marks.copyButton attributes) :
    StartsIn own (behindBlock title) Marks.copyButton attributes ∨
      attributes = [⟨"title", title⟩] := by
  obtain ⟨hplain, -⟩ := singleTag_class (by decide : Token.IsTagName "div".toList)
    (by decide : ∀ d ∈ classSigns, d ∉ Marks.wrapper.toList)
  have hbracket := bracket_not_mem_singleTag (by decide : '<' ∉ "div".toList)
    (by decide : '<' ∉ "class".toList) (by decide : '<' ∉ Marks.wrapper.toList)
  have htext : CodeBlock.wrappedText title own =
      '<' :: ((singleTag "div" "class" Marks.wrapper.toList).text ++
        (own ++ behindBlock title)) := by
    simp [CodeBlock.wrappedText, elementText, behindBlock, singleTag]
  rw [htext] at h
  obtain ⟨hname, -⟩ | hlater := h.of_written hplain hbracket
  · exact absurd hname (by decide)
  · rcases hlater.of_append with hown | hbehind
    · exact .inl (by rwa [List.append_nil] at hown)
    · exact .inr (attributes_behindBlock htitle hbehind)

/-- No other start tag is read as that of a button. -/
theorem name_of_comesFrom {t : Tag} {name : String} (hname : t.name = Marks.copyButton)
    (h : t.ComesFrom name attributes) : name = Marks.copyButton := by
  obtain ⟨hsame, -⟩ := h
  rw [hname] at hsame
  cases hspace : t.space with
  | page => exact (hspace ▸ hsame).symm
  | formula => exact (hspace ▸ hsame).symm
  | drawing =>
    rw [hspace] at hsame
    have hcapitals : Marks.copyButton = Foreign.capitalised Foreign.elementNames name := hsame
    unfold Foreign.capitalised at hcapitals
    cases hfound : Foreign.elementNames.find? fun n => n.toList.map Char.toLower == name.toList with
    | none => rwa [hfound, Option.getD_none, eq_comm] at hcapitals
    | some n =>
      rw [hfound, Option.getD_some] at hcapitals
      exact absurd (hcapitals ▸ List.mem_of_find?_eq_some hfound) (by decide)

/-- A tag that comes from a start tag with a title has this title. -/
theorem title_of_comesFrom {t : Tag} (h : t.ComesFrom Marks.copyButton [⟨"title", title⟩]) :
    t.attribute? "title" = some title := by
  obtain ⟨-, more, hmore⟩ := h
  have hattributes : (Foreign.tag t.space Marks.copyButton [⟨"title", title⟩]).attributes =
      [⟨"title", title⟩] := by
    have hkept : Foreign.capitalised Foreign.attributeNames "title" = "title" := by decide
    cases t.space with
    | page => rfl
    | formula => rfl
    | drawing => simp [Foreign.tag, hkept]
  rw [Tag.attribute?, ← hmore, hattributes]
  rfl

/-- What stands in the place of a block has buttons with a title: each comes from a start tag that
begins in the block itself, or it has the title; and a block of regular content is next to one. -/
structure HasTitle (title : List Char) (block new : Node) : Prop where
  buttons : ∀ p ∈ new.places none, p.tag.name = Marks.copyButton →
    p.tag.attribute? "title" = some title ∨ ∃ attributes,
      StartsIn (unifyNewlines block.markup) (behindBlock title) Marks.copyButton attributes ∧
        p.tag.ComesFrom Marks.copyButton attributes
  regular : block.Regular [] → new = wrapped title block.unified.reread

/-- What is put in the place of an element is read from its wrapper. -/
theorem elementOf_of_own {isOld : Bool} {title : String} {q : PagePlace} {c : CopyButtons}
    {new : Node} (hnew : (visit isOld title q.parent q.tag q.children c).1.own = some new) :
    isBusy isOld q = true ∧ c.fault = none ∧
      elementOf (markup title q.node) wrapperSelector = .ok new := by
  obtain ⟨hbusy, hfault⟩ := isBusy_of_exchange? ((exchange?_eq c q).trans hnew)
  refine ⟨hbusy, hfault, ?_⟩
  unfold visit at hnew
  split_ifs at hnew
  split at hnew
  · next made hread => exact Option.some.inj hnew ▸ hread
  · cases hnew

/-- The visit of a block brings buttons with the title. -/
theorem hasTitle_of_own {isOld : Bool} {title : String} (hnul : '\x00' ∉ title.toList)
    (hreturn : '\r' ∉ title.toList) {q : PagePlace} {c : CopyButtons} {new : Node}
    (hnew : (visit isOld title q.parent q.tag q.children c).1.own = some new) :
    HasTitle title.toList q.node new := by
  obtain ⟨hbusy, hfault, hread⟩ := elementOf_of_own hnew
  refine ⟨fun p hp hname => ?_, fun hregular => ?_⟩
  · rw [CodeBlock.copyButtons_markup_eq] at hread
    obtain ⟨root, hroot, rfl⟩ := exists_place_of_elementOf hread
    have hmade := (Page.madeOf_readIn _).of_mem_places hroot
    rw [CodeBlock.unifyNewlines_wrappedText, Text.unifyNewlines_of_not_mem hreturn] at hmade
    obtain himplied | ⟨name, attributes, hstart, hfrom⟩ :=
      (hmade.of_mem_places hp).of_element.1
    · exact absurd (hname ▸ himplied) (by decide)
    · obtain rfl := name_of_comesFrom hname hfrom
      rcases startsIn_wrappedText hnul hstart with hown | rfl
      · exact .inr ⟨attributes, hown, hfrom⟩
      · exact .inl (title_of_comesFrom hfrom)
  · rw [visit_of_regular hregular title hbusy hfault] at hnew
    have htitle : readTitle title = title.toList := by
      rw [readTitle, Text.unifyNewlines_of_not_mem hreturn, withoutNul_of_not_mem hnul]
    rw [← Option.some.inj hnew, htitle]

end CopyButtons

/-! ## Pages -/

namespace Highlighting

/-- A node is a new block for a `pre` and a code in it: a `pre` with the classes of the old one and
the mark, in it a code with the classes of the old one, and in this texts and spans. -/
inductive HasClasses (pre code : Tag) : Node → Prop
  | intro {pre' code' : Tag} {ns : List Node} (hpre : pre'.name = "pre")
      (hcode : code'.name = "code")
      (hclasses : pre'.classes = pre.classes ++ [Marks.highlighted])
      (hclasses' : code'.classes = code.classes) (hns : ∀ n ∈ ns, n.IsSpan) :
      HasClasses pre code (.element pre' [.element code' ns])

theorem IsNewBlock.hasClasses {pre code : Tag} {new : Node} (h : IsNewBlock pre code new) :
    HasClasses pre code new := by
  obtain ⟨hns⟩ := h
  exact .intro rfl rfl (classes_preTag pre) (classes_codeTag code) hns

/-- The visit of a code of a parsed page brings a new block for it and the element around it. -/
theorem hasClasses_of_around {text : List Char} {q : PagePlace}
    (hq : q ∈ (Page.read text).root.places none) {h : Highlighting} {new : Node}
    (hnew : (visit (Page.read text).isOld q.parent q.tag q.children h).1.around = some new) :
    ∃ pre, q.parent = some pre ∧ HasClasses pre q.tag new := by
  have hfree := Page.nulFree_read text
  obtain ⟨pre, hpre, hblock⟩ :=
    isNewBlock_of_around (hfree.of_mem_parents (by simp) hq) (hfree.of_mem_places hq) hnew
  exact ⟨pre, hpre, hblock.hasClasses⟩

end Highlighting

namespace Html.Page

/-- **What is written into attributes is read back,** whatever characters there are in it.  A page
with its buttons is the page with elements exchanged for nodes whose buttons have the title; and so
has every node that the visit of an element brings.  A highlighted page is the parsed page with
elements exchanged for new blocks that have the classes; and so has every block that the visit of a
code brings, with the classes of the element around it and of the code. -/
theorem attributes_readBack {title : String} (hnul : '\x00' ∉ title.toList)
    (hreturn : '\r' ∉ title.toList) :
    (∀ page : Page, page.shown = none →
      Exchanged (fun q new => CopyButtons.HasTitle title.toList q.node new) none page.root
        ((page.addCopyButtons title).1.shown.getD (page.addCopyButtons title).1.root)) ∧
    (∀ (isOld : Bool) (q : PagePlace) (c : CopyButtons) (new : Node),
      (CopyButtons.visit isOld title q.parent q.tag q.children c).1.own = some new →
        CopyButtons.HasTitle title.toList q.node new) ∧
    (∀ (text : List Char) (e : Engine),
      Exchanged (fun q new => ∃ code children, Node.element code children ∈ q.children ∧
          Highlighting.HasClasses q.tag code new) none (read text).root
        (((read text).highlight e).1.shown.getD ((read text).highlight e).1.root)) ∧
    ∀ (text : List Char) (q : PagePlace) (h : Highlighting) (new : Node),
      q ∈ (read text).root.places none →
        (Highlighting.visit (read text).isOld q.parent q.tag q.children h).1.around = some new →
          ∃ pre, q.parent = some pre ∧ Highlighting.HasClasses pre q.tag new := by
  refine ⟨fun page hshown => ?_, fun _ _ _ _ => CopyButtons.hasTitle_of_own hnul hreturn,
    fun text e => ?_, fun text q h new hq => Highlighting.hasClasses_of_around hq⟩
  · refine Exchanged.mono (fun q new hnew => ?_) (exchanged_rewrite hshown _ _)
    obtain ⟨-, c, hexchange⟩ := PutsButton.exists_exchange? hnew
    rw [CopyButtons.exchange?_eq] at hexchange
    exact CopyButtons.hasTitle_of_own hnul hreturn hexchange
  · refine Exchanged.mono (fun q new hnew => ?_) (exchanged_rewrite (shown_read text) _ _)
    obtain ⟨hq, h, -, hexchange⟩ := hnew.exists_state (fun _ _ (_ : True) => trivial) trivial
    obtain ⟨code, children, hchild, hblock⟩ :=
      Highlighting.isNewBlock_of_exchange? ((nulFree_read text).of_mem_places hq) hexchange
    exact ⟨code, children, hchild, hblock.hasClasses⟩

/-- A title with quotes, brackets and what looks like markup already. -/
def trickyTitle : String := "\"Copy\" <b title='x'>&amp;&#34;&quot</b> & more"

/-- Such a title stands next to the block of a page. -/
theorem attributes_readBack_tricky :
    ∃ new, (CopyButtons.visit false trickyTitle (some (.bare "body")) CodeBlock.litTag litChildren
        {}).1.own = some new ∧
      new = wrapped trickyTitle.toList
        (Node.element CodeBlock.litTag litChildren).unified.reread := by
  let q : PagePlace := ⟨some (.bare "body"), CodeBlock.litTag, litChildren⟩
  have hbusy : CopyButtons.isBusy false q = true := by decide
  have hvisit := CopyButtons.visit_of_regular (q := q) regular_litChildren trickyTitle hbusy
    (c := {}) rfl
  have hnul : '\x00' ∉ trickyTitle.toList := by decide +kernel
  have hreturn : '\r' ∉ trickyTitle.toList := by decide +kernel
  have htitle := attributes_readBack hnul hreturn
  refine ⟨_, congrArg (·.1.own) hvisit, ?_⟩
  exact (htitle.2.1 false q {} _ (congrArg (·.1.own) hvisit)).regular regular_litChildren

end Html.Page
end DocHighlighter
