/-
# Pages as Doxygen makes them

A page has a head with a title, and perhaps the script of the copy buttons, and a body
with one block for all contents.  The pages differ in the contents only, and reading and
writing them is reading and writing the contents.

| | |
|---|---|
| the page that a text is | `DoxygenPage.read_text` |
| the text that a page is | `DoxygenPage.markup_page` |
| its places | `DoxygenPage.places_page` |
| a rewrite that has nothing to say outside the contents | `DoxygenPage.rewrite_page` |
-/

import DocHighlighter.Proofs.Html.Places
import DocHighlighter.Proofs.Html.Snippet

namespace DocHighlighter
namespace DoxygenPage

open Html
open Token (WrittenTag WrittenAttribute closingText nameOf EndsText)

/-- The script of the copy buttons. -/
def scriptText : List Char :=
  "<script type=\"text/javascript\" ".toList ++
    "src=\"doxygen-awesome-fragment-copy-button.js\"></script>".toList

/-- What stands before the contents. -/
def startText (withScript : Bool) : List Char :=
  "<!DOCTYPE html><html><head><title>Sample</title>".toList ++
    (if withScript then scriptText else []) ++ "</head><body>".toList

/-- What stands behind them. -/
def endText : List Char :=
  "</body></html>".toList

/-- The tag of the block for the contents. -/
def contentsTag : Tag :=
  ⟨"div", [⟨"class", "contents".toList⟩], .page⟩

/-- A page with the given contents. -/
def text (withScript : Bool) (contents : List Char) : List Char :=
  startText withScript ++ "<div class=\"contents\">".toList ++ contents ++ "</div>".toList ++
    endText

/-- The tag of the script. -/
def scriptTag : Tag :=
  ⟨"script", [⟨"type", "text/javascript".toList⟩,
    ⟨"src", "doxygen-awesome-fragment-copy-button.js".toList⟩], .page⟩

/-- What the head holds. -/
def headNodes (withScript : Bool) : List Node :=
  .element (.bare "title") [.text "Sample".toList] ::
    if withScript then [.element scriptTag []] else []

/-- A page whose contents are some nodes. -/
def page (withScript : Bool) (ns : List Node) : Page :=
  { before := [.doctype "html".toList]
    root := .element (.bare "html") [.element (.bare "head") (headNodes withScript),
      .element (.bare "body") [.element contentsTag ns]] }

/-! ## Reading -/

/-- The page when its body begins. -/
def bodyStart (withScript : Bool) : Builder where
  stack := [⟨.bare "body", if withScript then 4 else 3, .within, []⟩,
    ⟨.bare "html", 0, .within, [.element (.bare "head") (headNodes withScript)]⟩]
  nextId := if withScript then 5 else 4
  mode := .inBody
  resume := .inHead
  before := [.doctype "html".toList]

theorem inBody_bodyStart (withScript : Bool) : (bodyStart withScript).InBody false := by
  refine ⟨rfl, rfl, rfl, rfl, ⟨_, _, rfl, rfl⟩, ?_, ?_, fun _ => rfl⟩
  · intro f hf
    rcases List.mem_cons.1 hf with rfl | hf
    · rfl
    · obtain rfl := List.mem_singleton.1 hf
      rfl
  · intro e he
    exact absurd he List.not_mem_nil

/-- A start tag without attributes. -/
def bareTag (name : String) : WrittenTag :=
  ⟨name.toList, [], false⟩

theorem isPlain_bareTag {name : String} (h : Token.IsTagName name.toList) :
    (bareTag name).IsPlain :=
  ⟨h, by simp [bareTag], List.nodup_nil⟩

/-- The start tag of the script. -/
def scriptStart : WrittenTag :=
  ⟨"script".toList, [⟨"type".toList, "text/javascript".toList⟩,
    ⟨"src".toList, "doxygen-awesome-fragment-copy-button.js".toList⟩], false⟩

theorem isPlain_scriptStart : scriptStart.IsPlain := by
  have hattributes : (scriptStart.readAttributes.map Attribute.name).Nodup ∧
      ∀ a ∈ scriptStart.attributes, a.name ≠ [] ∧ (∀ c ∈ a.name, c ∉ Token.nameSigns) ∧
        '"' ∉ a.value := by
    unfold scriptStart
    repeat rw [String.toList_ofList]
    decide
  obtain ⟨hnames, has⟩ := hattributes
  exact ⟨by decide, fun a ha => ⟨(has a ha).1, (has a ha).2.1, (has a ha).2.2⟩, hnames⟩

theorem readAttributes_scriptStart : scriptStart.readAttributes = scriptTag.attributes := by
  unfold scriptStart scriptTag
  repeat rw [String.toList_ofList]
  decide +kernel

/-- The head without its title. -/
def headRest (withScript : Bool) : List Char :=
  if withScript then '<' :: (scriptStart.text ++ '<' :: closingText "script".toList) else []

theorem startText_eq (withScript : Bool) : startText withScript =
    '<' :: ("!DOCTYPE html>".toList ++ '<' :: ((bareTag "html").text ++ '<' ::
      ((bareTag "head").text ++ '<' :: ((bareTag "title").text ++ "Sample".toList ++ '<' ::
        (closingText "title".toList ++ (headRest withScript ++ '<' ::
          (closingText "head".toList ++ '<' :: (bareTag "body").text))))))) := by
  unfold startText scriptText headRest bareTag scriptStart
  repeat rw [String.toList_ofList]
  cases withScript <;> decide

/-- The page when its head begins, with the title read. -/
def headStart : Builder where
  stack := [⟨.bare "head", 1, .within, [.element (.bare "title") [.text "Sample".toList]]⟩,
    ⟨.bare "html", 0, .within, []⟩]
  nextId := 3
  mode := .inHead
  resume := .inHead
  before := [.doctype "html".toList]

/-- The page when its title begins. -/
def titleStart : Builder where
  stack := [⟨.bare "title", 2, .within, []⟩, ⟨.bare "head", 1, .within, []⟩,
    ⟨.bare "html", 0, .within, []⟩]
  nextId := 3
  mode := .inText
  resume := .inHead
  textReading := some (.references "title".toList)
  before := [.doctype "html".toList]

/-- The document type, as it is read. -/
theorem next_doctype (rest : List Char) :
    Token.next (.markup false) '<' ("!DOCTYPE html>".toList ++ rest) =
      (some (.doctype { name := "html".toList }), rest) := by
  rw [String.toList_ofList]
  rfl

open Builder in
theorem run_title (rest : List Char) :
    ({} : Builder).run ('<' :: ("!DOCTYPE html>".toList ++ '<' :: ((bareTag "html").text ++ '<' ::
      ((bareTag "head").text ++ '<' :: ((bareTag "title").text ++ rest))))) =
      titleStart.run rest := by
  have hname : ∀ name ∈ ["html", "head", "title", "body"], Token.IsTagName name.toList := by
    decide
  have hdoctype := run_of_next (b := {}) (next_doctype ('<' :: ((bareTag "html").text ++ '<' ::
      ((bareTag "head").text ++ '<' :: ((bareTag "title").text ++ rest)))))
  have hsteps : (((({} : Builder).step (.doctype { name := "html".toList })).step
      (.opening "html" [] false)).step (.opening "head" [] false)).step
        (.opening "title" [] false) = titleStart := rfl
  have hlower : nameOf "html".toList = "html" ∧ nameOf "head".toList = "head" ∧
      nameOf "title".toList = "title" := by decide
  rw [hdoctype, run_opening rfl (isPlain_bareTag (hname "html" (by simp))),
    run_opening rfl (isPlain_bareTag (hname "head" (by simp))),
    run_opening rfl (isPlain_bareTag (hname "title" (by simp)))]
  simp only [bareTag, WrittenTag.readAttributes, List.map_nil, hlower, hsteps]

/-- Text in an element that only its end tag ends, and that tag. -/
theorem run_textClosing {b : Builder} {name : List Char}
    (hb : b.reading = .references name ∨ b.reading = .endTag name) (hname : Token.IsTagName name)
    (hlow : name.map Char.toLower = name) (rest : List Char) :
    b.run ('<' :: (closingText name ++ rest)) = (b.step (.closing (nameOf name))).run rest := by
  refine Builder.run_of_next ?_
  rcases hb with hb | hb <;> rw [hb] <;> exact Token.upToEndTag_closing hname hlow _ rest

open Builder in
theorem run_titleText (rest : List Char) :
    titleStart.run ("Sample".toList ++ '<' :: (closingText "title".toList ++ rest)) =
      headStart.run rest := by
  have hlow : "title".toList.map Char.toLower = "title".toList := by decide
  have htext : Token.withoutNul (Reference.decode false "Sample".toList) = "Sample".toList := by
    rw [Reference.decode_of_not_mem (by decide)]
    decide
  have hnext : Token.next titleStart.reading 'S'
      ("ample".toList ++ '<' :: (closingText "title".toList ++ rest)) =
      (some (.text "Sample".toList), '<' :: (closingText "title".toList ++ rest)) := by
    have hrun := Token.upToEndTag_run (by decide : '<' ∉ 'S' :: "ample".toList) hlow
      (fun run => .text (Token.withoutNul (Reference.decode false run))) rest
    have hword : 'S' :: "ample".toList = "Sample".toList := by decide
    rw [hword, htext] at hrun
    exact hrun
  have hclosing := run_textClosing (b := titleStart.step (.text "Sample".toList)) (.inl rfl)
    (by decide) hlow rest
  have hsteps : (titleStart.step (.text "Sample".toList)).step
      (.closing (nameOf "title".toList)) = headStart := rfl
  have hrun := run_of_next hnext
  rw [hclosing, hsteps] at hrun
  exact hrun

open Builder in
theorem run_headRest (withScript : Bool) (rest : List Char) :
    headStart.run (headRest withScript ++ '<' :: (closingText "head".toList ++ '<' ::
      ((bareTag "body").text ++ rest))) = (bodyStart withScript).run rest := by
  have hname : ∀ name ∈ ["head", "script", "body"], Token.IsTagName name.toList := by
    decide
  cases withScript with
  | false =>
    have hsteps : (headStart.step (.closing (nameOf "head".toList))).step
        (.opening (nameOf "body".toList) [] false) = bodyStart false := rfl
    rw [headRest, if_neg (by simp), List.nil_append, run_closing rfl (hname "head" (by simp)),
      run_opening rfl (isPlain_bareTag (hname "body" (by simp)))]
    exact congrArg (fun b : Builder => b.run rest) hsteps
  | true =>
    have hsteps : (((headStart.step (.opening (nameOf "script".toList) scriptTag.attributes
        false)).step (.closing (nameOf "script".toList))).step
          (.closing (nameOf "head".toList))).step (.opening (nameOf "body".toList) [] false) =
        bodyStart true := rfl
    have htext : headRest true ++ '<' :: (closingText "head".toList ++ '<' ::
        ((bareTag "body").text ++ rest)) = '<' :: (scriptStart.text ++ '<' ::
          (closingText "script".toList ++ '<' :: (closingText "head".toList ++ '<' ::
            ((bareTag "body").text ++ rest)))) := by
      simp [headRest]
    rw [htext, run_opening rfl isPlain_scriptStart, readAttributes_scriptStart,
      run_textClosing (.inr rfl) (hname "script" (by simp)) (by decide),
      run_closing rfl (hname "head" (by simp)),
      run_opening rfl (isPlain_bareTag (hname "body" (by simp)))]
    exact congrArg (fun b : Builder => b.run rest) hsteps

/-- The contents in their block. -/
def contentsText (contents : List Char) : List Char :=
  elementText (singleTag "div" "class" "contents".toList) contents ++ []

theorem written_contents {contents : List Char} {ns : List Node}
    (h : Written false contents ns) :
    Written false (contentsText contents) [.element contentsTag ns] :=
  written_div (by decide) h

theorem text_eq (withScript : Bool) (contents : List Char) :
    text withScript contents =
      startText withScript ++ (contentsText contents ++ ('<' :: (closingText "body".toList ++
        '<' :: (closingText "html".toList ++ [])))) := by
  have hend : endText = '<' :: (closingText "body".toList ++
      '<' :: (closingText "html".toList ++ [])) := by decide
  rw [text, hend]
  simp [contentsText, elementText, singleTag, WrittenTag.text, WrittenAttribute.text,
    Token.tagEnd, closingText]

theorem return_not_mem_startText (withScript : Bool) : '\r' ∉ startText withScript := by
  unfold startText scriptText
  repeat rw [String.toList_ofList]
  cases withScript <;> decide

/-- The page when its root has ended. -/
def ended (b : Builder) : Builder :=
  { b with mode := .afterRoot }

/-- The end tags of the body and the root end a page. -/
theorem run_endText {b : Builder} (hb : b.InBody false) {body : Frame} {s : Stack}
    (hs : b.stack = body :: s) (hbody : body.tag = .bare "body") :
    b.run ('<' :: (closingText "body".toList ++ '<' :: (closingText "html".toList ++ []))) =
      ended b := by
  have hname : ∀ name ∈ ["body", "html"], Token.IsTagName name.toList := by
    decide
  have hlower : nameOf "body".toList = "body" ∧ nameOf "html".toList = "html" := by decide
  have hpage : body.isPage "body" = true := by
    rw [Frame.isPage, hbody]
    rfl
  have hclosed : b.step (.closing "body") = { b with mode := .afterBody } := by
    have hopen : b.isOpenWithin Frame.bounds (·.isPage "body") = true := by
      simp [Builder.isOpenWithin, hs, Stack.isOpenWithin, hpage]
    rw [hb.step_eq, Builder.inBody, Builder.closeInBody]
    simp [hopen]
  have hforeign : Builder.isForeign body = false := by
    rw [Builder.isForeign, hbody]
    rfl
  have hended : ({ b with mode := .afterBody } : Builder).step (.closing "html") = ended b := by
    simp [ended, Builder.step, hb.dropsNewline, Builder.isInForeign, hs, hforeign, Builder.byMode,
      Builder.afterBody]
  have hreading : ({ b with mode := .afterBody } : Builder).reading = .markup false := hb.reading
  rw [Builder.run_closing hb.reading (hname "body" (by simp)), hlower.1, hclosed,
    Builder.run_closing hreading (hname "html" (by simp)), hlower.2, hended, Builder.run_nil]

/-- **The page that a text is:** its contents are what is written there. -/
theorem read_text (withScript : Bool) {contents : List Char} {ns : List Node}
    (h : Written false contents ns) (hreturn : '\r' ∉ contents) :
    Page.read (text withScript contents) = page withScript ns := by
  have hnone : '\r' ∉ text withScript contents := by
    have hstart := return_not_mem_startText withScript
    have hdiv := return_not_mem_div (by decide : '\r' ∉ "contents".toList) hreturn
    have hend : '\r' ∉ '<' :: (closingText "body".toList ++
        '<' :: (closingText "html".toList ++ [])) := by decide
    rw [text_eq, contentsText, List.append_nil, List.mem_append, List.mem_append, not_or, not_or]
    exact ⟨hstart, hdiv, hend⟩
  obtain ⟨id, hbody⟩ := Builder.run_of_written (written_contents h) (inBody_bodyStart withScript)
    (endsText_closing (by decide : "body".toList ≠ []) ('<' :: (closingText "html".toList ++ [])))
  have hin := (inBody_bodyStart withScript).add [.element contentsTag ns] id
  have hstack : (((bodyStart withScript).add [.element contentsTag ns]).withNext id).stack =
      [⟨.bare "body", if withScript then 4 else 3, .within, [.element contentsTag ns]⟩,
        ⟨.bare "html", 0, .within, [.element (.bare "head") (headNodes withScript)]⟩] := rfl
  have hrun : ({} : Builder).run (text withScript contents) =
      ended (((bodyStart withScript).add [.element contentsTag ns]).withNext id) := by
    rw [text_eq, startText_eq]
    simp only [List.cons_append, List.append_assoc]
    rw [run_title, run_titleText, run_headRest, hbody, run_endText hin hstack rfl]
  have hfinish := Builder.finish_eq
    (b := ended (((bodyStart withScript).add [.element contentsTag ns]).withNext id))
    (.inr rfl) hstack rfl rfl
  rw [Page.read, Text.unifyNewlines_of_not_mem hnone, hrun, hfinish]
  rfl

/-! ## Writing -/

theorem markup_head (withScript : Bool) :
    "<!DOCTYPE html><html>".toList ++
        (Node.element (.bare "head") (headNodes withScript)).markupIn false ++ "<body>".toList =
      startText withScript := by
  unfold startText scriptText headNodes scriptTag
  repeat rw [String.toList_ofList]
  cases withScript <;> decide

/-- **The text that a page is:** its contents as markup. -/
theorem markup_page (withScript : Bool) (ns : List Node) :
    (page withScript ns).markup = text withScript (Node.markupsIn false ns) := by
  have hdiv : contentsTag.opening = "<div class=\"contents\">".toList ∧
      contentsTag.closing = "</div>".toList ∧ contentsTag.holdsPlainText = false := by
    decide
  have hbody : (Tag.bare "body").opening = "<body>".toList ∧
      (Tag.bare "body").closing = "</body>".toList ∧
      (Tag.bare "body").holdsPlainText = false := by
    decide
  have hroot : (Tag.bare "html").opening = "<html>".toList ∧
      (Tag.bare "html").closing = "</html>".toList ∧
      (Tag.bare "html").holdsPlainText = false := by
    decide
  have hdoctype : [Outer.doctype "html".toList].flatMap Outer.markup =
      "<!DOCTYPE html>".toList := by
    decide
  have hbefore : (page withScript ns).before.flatMap Outer.markup = "<!DOCTYPE html>".toList :=
    hdoctype
  have hstart : "<!DOCTYPE html><html>".toList = "<!DOCTYPE html>".toList ++ "<html>".toList := by
    decide
  have hend : endText = "</body>".toList ++ "</html>".toList := by
    decide
  have hmarkup : (page withScript ns).markup = (page withScript ns).before.flatMap Outer.markup ++
      (page withScript ns).root.markupIn false ++ [] := rfl
  have hnodes : (page withScript ns).root.markupIn false = (Tag.bare "html").opening ++
      ((Node.element (.bare "head") (headNodes withScript)).markupIn false ++
        (((Tag.bare "body").opening ++
          ((contentsTag.opening ++ Node.markupsIn contentsTag.holdsPlainText ns ++
            contentsTag.closing) ++ []) ++ (Tag.bare "body").closing) ++ [])) ++
      (Tag.bare "html").closing := rfl
  obtain ⟨ho, hc, hp⟩ := hdiv
  obtain ⟨hob, hcb, -⟩ := hbody
  obtain ⟨hor, hcr, -⟩ := hroot
  rw [hmarkup, hbefore, hnodes, ho, hc, hp, hob, hcb, hor, hcr, text, ← markup_head, hstart, hend]
  simp only [List.append_assoc, List.append_nil]

/-! ## Going through it -/

/-- The tags outside the contents. -/
def frameTags (withScript : Bool) : List Tag :=
  [.bare "html", .bare "head", .bare "title"] ++ (if withScript then [scriptTag] else []) ++
    [.bare "body", contentsTag]

/-- The places of a page are those outside the contents and then those of the contents. -/
theorem places_page (withScript : Bool) (ns : List Node) :
    ∃ frame : List PagePlace, frame.map PagePlace.tag = frameTags withScript ∧
      (page withScript ns).root.places none = frame ++ Node.placesAll (some contentsTag) ns := by
  let inside : List Node := [.element (.bare "head") (headNodes withScript),
    .element (.bare "body") [.element contentsTag ns]]
  let script : List PagePlace :=
    if withScript then [⟨some (.bare "head"), scriptTag, []⟩] else []
  refine ⟨[⟨none, .bare "html", inside⟩,
    ⟨some (.bare "html"), .bare "head", headNodes withScript⟩,
    ⟨some (.bare "head"), .bare "title", [.text "Sample".toList]⟩] ++ script ++
    [⟨some (.bare "html"), .bare "body", [.element contentsTag ns]⟩,
      ⟨some (.bare "body"), contentsTag, ns⟩], ?_, ?_⟩
  · cases withScript <;> rfl
  · cases withScript <;> simp [page, Node.places, Node.placesAll, headNodes, inside, script]

/-- A rewrite that has nothing to say outside the contents rewrites these only. -/
theorem rewrite_page {σ : Type} {visit : Visit σ} {withScript : Bool} {ns ms : List Node}
    {s s' : σ}
    (hframe : ∀ tag ∈ frameTags withScript, ∀ parent children,
      visit parent tag children s = ({}, s))
    (hcontents : rewriteAll visit (some contentsTag) ns s = (ms, none, s')) :
    (page withScript ns).rewrite visit s = (page withScript ms, s') := by
  cases withScript <;>
    simp [page, Page.rewrite, rewriteIn, rewriteAll, headNodes, frameTags] at hframe ⊢ <;>
    simp [hframe, hcontents]

end DoxygenPage
end DocHighlighter
