/-
# What a block keeps when it gets its button

A highlighted block is put beside its button by way of markup: its own is written into that of the
wrapper, and the wrapper is read from there.  Regular content (`Html.Node.Regular`) comes back with
its newlines in one spelling and without those that preformatted text begins with, in a wrapper
with one button (`CopyButtons.elementOf_markup`), whatever the title of the button is
(`CopyButtons.readTitle`).

So such a block keeps its markup exactly if there is no return in it and no preformatted text in
it, the block itself included, begins with a newline (`Html.Page.addCopyButtons_keeps_iff`).  Not
every block is like that: one that begins with a blank line loses it
(`Html.Page.not_forall_keepsMarkup`).
-/

import DocHighlighter.Proofs.Block.Counted
import DocHighlighter.Proofs.Block.Kept
import DocHighlighter.Proofs.Html.KeptMarkup
import DocHighlighter.Proofs.Html.Reread
import DocHighlighter.Proofs.Render.FragmentsSettled

namespace DocHighlighter

open Html
open Fragment (wrapperTag)
open Text (unifyNewlines)
open Token (WrittenTag nameOf closingText)

/-! ## The wrapper as markup -/

theorem Text.unifyNewlines_escapeQuotedChar (text : List Char) :
    unifyNewlines (text.flatMap escapeQuotedChar) =
      (unifyNewlines text).flatMap escapeQuotedChar := by
  refine unifyNewlines_flatMap rfl rfl (fun c hreturn hnewline => ?_) text
  unfold escapeQuotedChar
  split
  · decide
  · decide
  · unfold escapeChar
    split
    · decide
    · decide
    · decide
    · exact ⟨by simpa using Ne.symm hreturn, by simpa using hnewline, by simp⟩

namespace CodeBlock

/-- What is written around a title and a block. -/
theorem wrappedText_eq (title pre : List Char) : wrappedText title pre =
    "<div class=\"".toList ++ Marks.wrapper.toList ++ "\">".toList ++ (pre ++
      ("<".toList ++ Marks.copyButton.toList ++ " title=\"".toList ++
        (title.flatMap Text.escapeQuotedChar ++ ("\">".toList ++ Marks.copyIcon.toList ++
          "</".toList ++ Marks.copyButton.toList ++ "></div>".toList)))) := by
  have hgeneral : ∀ wrapper button drawing pre title : List Char,
      elementText (singleTag "div" "class" wrapper)
          (pre ++ (elementText ⟨button, [⟨"title".toList, title⟩], false⟩
            (drawing ++ []) ++ [])) ++ [] =
        "<div class=\"".toList ++ wrapper ++ "\">".toList ++ (pre ++
          ("<".toList ++ button ++ " title=\"".toList ++ (title ++ ("\">".toList ++ drawing ++
            "</".toList ++ button ++ "></div>".toList)))) := by
    intro wrapper button drawing pre title
    simp [elementText, singleTag, WrittenTag.text, Token.WrittenAttribute.text, Token.tagEnd,
      closingText]
  exact hgeneral Marks.wrapper.toList Marks.copyButton.toList Marks.copyIcon.toList pre
    (title.flatMap Text.escapeQuotedChar)

/-- The newlines of a wrapper are those of the block and of the title. -/
theorem unifyNewlines_wrappedText (title own : List Char) :
    unifyNewlines (wrappedText title own) =
      wrappedText (unifyNewlines title) (unifyNewlines own) := by
  have hstart : '\r' ∉ "<div class=\"".toList ++ Marks.wrapper.toList ++ "\">".toList := by
    decide
  have hbutton : '\r' ∉ "<".toList ++ Marks.copyButton.toList ++ " title=\"".toList := by
    decide
  have hend : '\r' ∉ "\">".toList ++ Marks.copyIcon.toList ++ "</".toList ++
      Marks.copyButton.toList ++ "></div>".toList := by
    have hicon : '\r' ∉ Marks.copyIcon.toList := fun hmem =>
      return_not_mem_copyIcon (List.mem_append_left _ hmem)
    have hname : '\r' ∉ Marks.copyButton.toList := by decide
    simp [hicon, hname]
  rw [wrappedText_eq, wrappedText_eq, Text.unifyNewlines_append_left hstart,
    Text.unifyNewlines_append _ (by simp), Text.unifyNewlines_append_left hbutton,
    Text.unifyNewlines_append _ (by simp), Text.unifyNewlines_escapeQuotedChar,
    Text.unifyNewlines_of_not_mem hend]

end CodeBlock

/-! ## Reading it -/

namespace Html.Builder

/-- The body of a snippet is a place where nothing goes on. -/
theorem around_snippetBody : snippetBody.Around [] := by
  refine ⟨⟨rfl, rfl, rfl, rfl, inBody_snippetBody.top, inBody_snippetBody.noParagraph,
    inBody_snippetBody.settled, nofun⟩, nofun, ?_⟩
  intro f hf
  rcases List.mem_cons.1 hf with rfl | hf
  · decide
  · obtain rfl := List.mem_singleton.1 hf
    decide

/-- **A wrapper is opened first,** and the block is read in it. -/
theorem run_wrapper (title pre : List Char) :
    ({} : Builder).run (CodeBlock.wrappedText title pre) =
      (snippetBody.opened wrapperTag).run
        (pre ++ (CodeBlock.buttonText title ++ '<' :: (closingText "div".toList ++ []))) := by
  obtain ⟨hdiv, hread⟩ := singleTag_class (by decide : Token.IsTagName "div".toList)
    (by decide : ∀ d ∈ classSigns, d ∉ Marks.wrapper.toList)
  have hname : nameOf "div".toList = "div" := by decide
  have hbody := around_snippetBody
  have htext := elementText_append (singleTag "div" "class" Marks.wrapper.toList)
    (pre ++ CodeBlock.buttonText title) [] []
  rw [List.append_nil] at htext
  rw [CodeBlock.wrappedText, run_start hdiv rfl (.inr hname), htext,
    run_opening hbody.reading hdiv, hread, hbody.step_eq, inBody]
  show (snippetBody.openInBody (nameOf "div".toList) _ false).run _ = _
  rw [hname, isPlainName_div.opens _ hbody.toInBody, hbody.insert_eq, List.append_assoc]
  rfl

/-- Reading a wrapper around regular content puts it into the body of a page. -/
theorem run_wrappedText {pre : Node} (h : pre.Regular []) (title : List Char) :
    ∃ id, ({} : Builder).run (CodeBlock.wrappedText title pre.markup) =
      (snippetBody.add [wrapped (Token.withoutNul title) pre.reread]).withNext id := by
  have hname : nameOf "div".toList = "div" := by decide
  have hinside : (snippetBody.opened wrapperTag).Around [] :=
    around_snippetBody.opened rfl (by decide)
  have hbutton := CodeBlock.written_button (k := true) title
  have hclosing := endsText_closing (by decide : "div".toList ≠ []) []
  -- the block is read in the wrapper, and the button behind it
  obtain ⟨i, hi, hpre⟩ := readsBack_of_regular h hinside fun _ =>
    hbutton.endsText noTextFirst_element hclosing
  obtain ⟨id, hboth⟩ := run_of_written hbutton (hinside.add [pre.reread] hi).toInBody hclosing
  rw [add_withNext, add_add, withNext_withNext] at hboth
  have hend := hinside.toInBody.add ([pre.reread] ++ [button (Token.withoutNul title)]) id
  have hcloses := isPlainName_div.closes
    (b := ((snippetBody.opened wrapperTag).add
      ([pre.reread] ++ [button (Token.withoutNul title)])).withNext id)
    (stack_add_opened ..) (by simp [Frame.isPage, Tag.isPage, wrapperTag])
  have hchildren : Node.Separate ([pre.reread] ++ [button (Token.withoutNul title)]) :=
    separate_cons (fun _ => noTextFirst_element) (.singleton _)
  refine ⟨id, ?_⟩
  rw [run_wrapper, hpre, hboth, run_closing hend.reading (by decide), hend.step_eq, inBody, hname,
    hcloses, pop_opened _ _ hchildren, run_nil]
  rfl

end Html.Builder

namespace CopyButtons

variable {isOld : Bool} {title : String} {q : PagePlace} {new : Node}

/-- The title of a button as it is read: with its newlines in one spelling, and without U+0000. -/
def readTitle (title : String) : List Char :=
  Token.withoutNul (unifyNewlines title.toList)

/-- **A block of regular content is read back** in a wrapper with one button. -/
theorem elementOf_markup {pre : Node} (h : pre.Regular []) (title : String) :
    elementOf (markup title pre) wrapperSelector =
      .ok (wrapped (readTitle title) pre.unified.reread) := by
  obtain ⟨id, hrun⟩ := Builder.run_wrappedText h.unified (unifyNewlines title.toList)
  rw [← h.unifies.markup, ← CodeBlock.unifyNewlines_wrappedText] at hrun
  rw [CodeBlock.copyButtons_markup_eq]
  refine elementOf_of_read (Page.read_of_run hrun (.singleton _)) (fun _ => wrapper_not_fits) ?_
  rw [wrapper_fits]
  decide

/-- A visit to a block of regular content without a button puts it into a wrapper. -/
theorem visit_of_regular (h : q.node.Regular []) (title : String) (hbusy : isBusy isOld q = true)
    {c : CopyButtons} (hc : c.fault = none) :
    visit isOld title q.parent q.tag q.children c =
      ({ own := some (wrapped (readTitle title) q.node.unified.reread) },
        { c with count := c.count + 1 }) := by
  obtain ⟨hfits, hbare⟩ := (Bool.and_eq_true_iff).1 hbusy
  rw [Bool.not_eq_true'] at hbare
  have hnew : elementOf (markup title (.element q.tag q.children)) wrapperSelector =
      .ok (wrapped (readTitle title) q.node.unified.reread) := elementOf_markup h title
  simp only [visit, hc, hfits, hbare, hnew, Option.isSome_none, Bool.not_true, Bool.or_self,
    Bool.false_eq_true, if_false]

/-- A visit puts nothing in the place of the element around. -/
theorem around_visit (isOld : Bool) (title : String) (parent : Option Tag) (tag : Tag)
    (children : List Node) (c : CopyButtons) :
    (visit isOld title parent tag children c).1.around = none := by
  unfold visit
  split
  · rfl
  split
  · rfl
  split <;> rfl

/-- Only what its own visit says is put in the place of an element. -/
theorem exchange?_eq (c : CopyButtons) (q : PagePlace) :
    q.exchange? (visit isOld title) c =
      (visit isOld title q.parent q.tag q.children c).1.own := by
  have hinside : (rewriteAll (visit isOld title) (some q.tag) q.children
      (q.answer (visit isOld title) c)).2.1 = none := by
    cases hnew : (rewriteAll (visit isOld title) (some q.tag) q.children
        (q.answer (visit isOld title) c)).2.1 with
    | none => rfl
    | some new =>
      obtain ⟨tag, children, c', -, -, haround⟩ :=
        exists_around (fun _ _ (_ : True) => trivial) trivial hnew
      rw [around_visit] at haround
      cases haround
  rw [PagePlace.exchange?, hinside, Option.orElse_eq_or, Option.or_none, PagePlace.replacement]

/-- What is exchanged is a highlighted block without a button, and nothing has gone wrong. -/
theorem isBusy_of_exchange? {c : CopyButtons}
    (h : q.exchange? (visit isOld title) c = some new) :
    isBusy isOld q = true ∧ c.fault = none := by
  rw [exchange?_eq] at h
  refine ⟨?_, ?_⟩
  · by_contra hidle
    rw [visit_of_silent (isBusy_eq_false_iff.1 (Bool.eq_false_iff.2 hidle))] at h
    cases h
  · by_contra hfault
    rw [visit_of_fault hfault] at h
    cases h

/-- A block of regular content is exchanged for its wrapper. -/
theorem eq_wrapped_of_exchange? {c : CopyButtons} (hq : q.node.Regular [])
    (h : q.exchange? (visit isOld title) c = some new) :
    new = wrapped (readTitle title) q.node.unified.reread := by
  obtain ⟨hbusy, hc⟩ := isBusy_of_exchange? h
  rw [exchange?_eq, visit_of_regular hq title hbusy hc] at h
  exact (Option.some.inj h).symm

end CopyButtons

namespace Html.Page

/-! ## Pages -/

/-- Giving a page its buttons exchanges an element for a node. -/
def PutsButton (page : Page) (title : String) (q : PagePlace) (new : Node) : Prop :=
  Exchanges (CopyButtons.visit page.isOld title) (page.root.places none) {} q new

variable {page : Page} {title : String} {q : PagePlace} {new : Node}

theorem PutsButton.exists_exchange? (h : page.PutsButton title q new) :
    q ∈ page.root.places none ∧
      ∃ c, q.exchange? (CopyButtons.visit page.isOld title) c = some new := by
  unfold PutsButton at h
  obtain ⟨hq, c, -, hnew⟩ := h.exists_state (fun _ _ (_ : True) => trivial) trivial
  exact ⟨hq, c, hnew⟩

/-- **Adding buttons loses newlines.**  On a parsed page, everything stays but the highlighted
blocks without a button.  Such a block, if its content is regular, is exchanged for a wrapper with
one button, and keeps its markup there exactly if there is no return in it and no preformatted text
at or below it begins with a newline. -/
theorem addCopyButtons_keeps_iff (text : List Char) (title : String) :
    Exchanged ((read text).PutsButton title) none (read text).root
        (((read text).addCopyButtons title).1.shown.getD
          ((read text).addCopyButtons title).1.root) ∧
      ∀ q new, (read text).PutsButton title q new →
        CopyButtons.isBusy (read text).isOld q = true ∧
          (q.node.Regular [] →
            new = wrapped (CopyButtons.readTitle title) q.node.unified.reread ∧
              (q.node.unified.reread.markup = q.node.markup ↔
                '\r' ∉ q.node.markup ∧ ∀ p ∈ q.node.places q.parent, p.losesNewline = false)) := by
  refine ⟨exchanged_rewrite (shown_read text) _ _, fun q new h => ?_⟩
  obtain ⟨-, c, hnew⟩ := h.exists_exchange?
  refine ⟨(CopyButtons.isBusy_of_exchange? hnew).1, fun hregular => ?_⟩
  exact ⟨CopyButtons.eq_wrapped_of_exchange? hregular hnew,
    hregular.markup_reread_iff rfl q.parent⟩

/-- A block of regular content gets its button, if no block before it gets one. -/
theorem putsButton_of_silent {before after : List PagePlace}
    (hplaces : page.root.places none = before ++ q :: after)
    (hbefore : ∀ p ∈ before, CopyButtons.Silent page.isOld p)
    (hbusy : CopyButtons.isBusy page.isOld q = true) (hregular : q.node.Regular [])
    (title : String) : page.PutsButton title q
      (wrapped (CopyButtons.readTitle title) q.node.unified.reread) := by
  have hidle : (before.foldl (PagePlace.answer (CopyButtons.visit page.isOld title)) {}).Idle :=
    ((CopyButtons.rests page.isOld title).idle_foldl_iff before {}).2 ⟨⟨rfl, rfl⟩, hbefore⟩
  rw [PutsButton, hplaces]
  refine Exchanges.append_right (.here ?_)
  rw [CopyButtons.exchange?_eq, CopyButtons.visit_of_regular hregular title hbusy hidle.1]

/-! ## Two pages -/

/-- The tree of a page with one highlighted block. -/
def ofLitBlock (children : List Node) : Node :=
  .element (.bare "html") [.element (.bare "head") [],
    .element (.bare "body") [.element CodeBlock.litTag children]]

theorem isKept_litTag : CodeBlock.litTag.IsKept :=
  Tag.isKept_of_class (by decide) (by decide) (by decide)

/-- The block of such a page gets its button. -/
theorem putsButton_ofLitBlock {children : List Node} (hroot : page.root = ofLitBlock children)
    (hregular : (Node.element CodeBlock.litTag children).Regular []) (title : String) :
    page.PutsButton title ⟨some (.bare "body"), CodeBlock.litTag, children⟩
      (wrapped (CopyButtons.readTitle title)
        (Node.element CodeBlock.litTag children).unified.reread) := by
  have hplaces : page.root.places none =
      [⟨none, .bare "html", [.element (.bare "head") [],
          .element (.bare "body") [.element CodeBlock.litTag children]]⟩,
        ⟨some (.bare "html"), .bare "head", []⟩,
        ⟨some (.bare "html"), .bare "body", [.element CodeBlock.litTag children]⟩] ++
      ⟨some (.bare "body"), CodeBlock.litTag, children⟩ ::
        Node.placesAll (some CodeBlock.litTag) children := by
    rw [hroot]
    simp [ofLitBlock, Node.places, Node.placesAll]
  have hbusy : ∀ isOld, (CopyButtons.blockSelector.fits isOld (some (.bare "body"))
      CodeBlock.litTag && !(some (Tag.bare "body")).any (·.classes.contains Marks.wrapper)) =
        true := by decide
  refine putsButton_of_silent hplaces ?_ (hbusy page.isOld) hregular title
  simp only [List.forall_mem_cons]
  exact ⟨CopyButtons.silent_of_name (by decide : "html" ≠ "pre"),
    CopyButtons.silent_of_name (by decide : "head" ≠ "pre"),
    CopyButtons.silent_of_name (by decide : "body" ≠ "pre"), List.forall_mem_nil _⟩

/-- A highlighted block in the interface definition language. -/
def litChildren : List Node :=
  [.element (CodeBlock.codeTag "idl") [.text "api ".toList,
    .element ⟨"span", [⟨"class", "nc".toList⟩], .page⟩ [.text "A".toList]]]

/-- A page with it. -/
def litPage : List Char :=
  ("<!DOCTYPE html><pre class=\"highlight\"><code class=\"language-idl\">api " ++
    "<span class=\"nc\">A</span></code></pre>").toList

theorem root_litPage : (read litPage).root = ofLitBlock litChildren := by
  unfold litPage litChildren CodeBlock.codeTag CodeBlock.languageClass Marks.languageStart
  simp only [String.toList_append]
  repeat rw [String.toList_ofList]
  decide +kernel

theorem regular_litChildren : (Node.element CodeBlock.litTag litChildren).Regular [] := by
  have hspan : (Node.element ⟨"span", [⟨"class", "nc".toList⟩], .page⟩
      [.text "A".toList]).Regular ["code"] := by
    refine .plain (Tag.isKept_of_class (by decide) (by decide) (by decide)) (by decide)
      (.singleton _) ?_
    rw [List.forall_mem_singleton]
    exact .text (by decide) (by decide)
  refine .preformatted isKept_litTag (by decide) (.singleton _) ?_
  rw [litChildren, List.forall_mem_singleton]
  refine .formatting (Tag.isKept_of_class (by decide) (by decide) (by decide)) (by decide)
    List.not_mem_nil (List.isChain_pair.2 ?_) ?_
  · simp [Node.isText]
  · rw [List.forall_mem_cons, List.forall_mem_singleton]
    exact ⟨.text (by decide) (by decide), hspan⟩

/-- A block that begins with no newline keeps its markup. -/
theorem addCopyButtons_keeps_lit : ∃ q new, (read litPage).PutsButton "Copy" q new ∧
    q.node.Regular [] ∧ q.node.unified.reread.markup = q.node.markup := by
  have hputs := putsButton_ofLitBlock root_litPage regular_litChildren "Copy"
  have hkeeps := (addCopyButtons_keeps_iff litPage "Copy").2 _ _ hputs
  exact ⟨_, _, hputs, regular_litChildren, (hkeeps.2 regular_litChildren).2.2 (by decide +kernel)⟩

/-- A page whose block begins with a blank line. -/
def blankLinePage : List Char :=
  "<!DOCTYPE html><pre class=\"highlight\">\n\na</pre>".toList

theorem root_blankLinePage :
    (read blankLinePage).root = ofLitBlock [.text "\na".toList] := by
  unfold blankLinePage
  repeat rw [String.toList_ofList]
  decide +kernel

/-- **Not every block keeps its markup:** one that begins with a blank line loses it, although no
other block is in it. -/
theorem not_forall_keepsMarkup :
    ¬ ∀ (text : List Char) (title : String) (q : PagePlace) (new : Node),
      (read text).PutsButton title q new →
        (∀ q' ∈ q.inside,
          CopyButtons.blockSelector.fits (read text).isOld q'.parent q'.tag = false) →
          ∃ tag block rest, new = .element tag (block :: rest) ∧ block.markup = q.node.markup := by
  intro h
  have hregular : (Node.element CodeBlock.litTag [.text "\na".toList]).Regular [] := by
    refine .preformatted isKept_litTag (by decide) (.singleton _) ?_
    rw [List.forall_mem_singleton]
    exact .text (by decide) (by decide)
  have hputs := putsButton_ofLitBlock root_blankLinePage hregular "Copy"
  obtain ⟨tag, block, rest, hnew, hsame⟩ := h _ _ _ _ hputs (by
    simp [PagePlace.inside, Node.places, Node.placesAll])
  obtain ⟨-, hchildren⟩ := Node.element.inj hnew
  rw [← (List.cons.inj hchildren).1] at hsame
  have hloses := ((hregular.markup_reread_iff rfl none).1 hsame).2 _ List.mem_cons_self
  exact absurd hloses (by decide)

end Html.Page
end DocHighlighter
