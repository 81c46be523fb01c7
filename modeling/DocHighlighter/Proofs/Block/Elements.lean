/-
# The elements of a code block

A code block becomes three elements, one stage after the other, and each is read from
the markup that the stage before it gave.

| stage | element | read from |
|---|---|---|
| classified | `pre` with `code` (`CodeBlock.plain`) | `CodeBlock.markup` |
| highlighted | a marked `pre` with spans (`CodeBlock.lit`) | `Highlighting.markup` |
| with a button | the wrapper around it (`wrapped`) | `CopyButtons.markup` |

Each of them writes itself, without returns, so it stays what it is when the page is
written and read again.

The first of them holds the block and nothing else (`CodeBlock.IsHeldBy`), so the markup
of a code block is a faithful encoding of it (`CodeBlock.exists_elementOf_markup`).
-/

import DocHighlighter.Block.Classify
import DocHighlighter.Block.CopyButton
import DocHighlighter.Block.Highlight
import DocHighlighter.Proofs.Highlight.Spans
import DocHighlighter.Proofs.Html.Snippet

namespace DocHighlighter

open Html
open Token (WrittenTag nameOf)
open Spans (IsPlainChar)

namespace CodeBlock

/-- The class that names a language. -/
def languageClass (language : String) : List Char :=
  Marks.languageStart.toList ++ language.toList

/-- The tag of the code in a language. -/
def codeTag (language : String) : Tag :=
  ⟨"code", [⟨"class", languageClass language⟩], .page⟩

/-- The tag of a highlighted block. -/
def litTag : Tag :=
  ⟨"pre", [⟨"class", Marks.highlighted.toList⟩], .page⟩

/-- The element of a block that is not highlighted. -/
def plain (b : CodeBlock) : Node :=
  .element (.bare "pre") [.element (codeTag b.language) (textNodes b.body)]

/-- The element of a block that is highlighted, with the given spans. -/
def lit (language : String) (spans : List Node) : Node :=
  .element litTag [.element (codeTag language) spans]

/-- The languages that tags of fragments name. -/
def knownLanguages : List String :=
  Fragment.languages.map (·.2)

/-- A class of a known language has no sign that would have to be escaped, and names it. -/
theorem languageClass_of_mem : ∀ language ∈ knownLanguages,
    (∀ c ∈ languageClass language, c ∉ classSigns) ∧
      (codeTag language).classes = [String.ofList (languageClass language)] ∧
      Marks.languageOf (codeTag language) = some language ∧
      Highlighting.classValue (codeTag language).classes = languageClass language := by
  decide +kernel

end CodeBlock

namespace Html

/-- The start tag of the drawing on a button. -/
def iconTag : WrittenTag :=
  ⟨"svg".toList, [⟨"xmlns".toList, "http://www.w3.org/2000/svg".toList⟩,
    ⟨"viewBox".toList, "0 0 24 24".toList⟩, ⟨"width".toList, "24".toList⟩,
    ⟨"height".toList, "24".toList⟩], false⟩

/-- The tags of its two shapes. -/
def iconShapes : List WrittenTag := [
  ⟨"path".toList, [⟨"d".toList, "M0 0h24v24H0V0z".toList⟩, ⟨"fill".toList, "none".toList⟩], true⟩,
  ⟨"path".toList, [⟨"d".toList, ("M16 1H4c-1.1 0-2 .9-2 2v14h2V3h12V1zm3 4H8c-1.1 0-2 .9-2 2v14" ++
    "c0 1.1.9 2 2 2h11c1.1 0 2-.9 2-2V7c0-1.1-.9-2-2-2zm0 16H8V7h11v14z").toList⟩], true⟩]

/-- The drawing on a button. -/
def icon : Node :=
  .element (Foreign.tag .drawing "svg" iconTag.readAttributes)
    (iconShapes.map fun t => .element (Foreign.tag .drawing "path" t.readAttributes) [])

theorem copyIcon_eq : Marks.copyIcon.toList =
    elementText iconTag (iconShapes.flatMap fun t => '<' :: t.text) := by
  unfold Marks.copyIcon iconTag iconShapes
  simp only [String.toList_append]
  repeat rw [String.toList_ofList]
  decide +kernel

theorem return_not_mem_copyIcon : '\r' ∉ Marks.copyIcon.toList ++ [] := by
  unfold Marks.copyIcon
  simp only [String.toList_append]
  repeat rw [String.toList_ofList]
  decide +kernel

theorem isPlain_iconTag : ∀ t ∈ iconTag :: iconShapes, t.IsPlain := by
  have hattributes : ∀ t ∈ iconTag :: iconShapes, Token.IsTagName t.name ∧
      (t.readAttributes.map Attribute.name).Nodup ∧ ∀ a ∈ t.attributes, a.name ≠ [] ∧
        (∀ c ∈ a.name, c ∉ Token.nameSigns) ∧ '"' ∉ a.value := by
    unfold iconTag iconShapes
    simp only [String.toList_append]
    repeat rw [String.toList_ofList]
    decide
  intro t ht
  obtain ⟨hname, hnames, has⟩ := hattributes t ht
  exact ⟨hname, fun a ha => ⟨(has a ha).1, (has a ha).2.1, (has a ha).2.2⟩, hnames⟩

theorem written_copyIcon {k : Bool} : Written k (Marks.copyIcon.toList ++ []) [icon] := by
  have hshapes : ∀ ts : List WrittenTag, (∀ t ∈ ts, t.IsPlain ∧ t.selfClosing = true ∧
      nameOf t.name = "path") → WrittenShapes (ts.flatMap fun t => '<' :: t.text)
        (ts.map fun t => .element (Foreign.tag .drawing "path" t.readAttributes) []) := by
    intro ts hts
    induction ts with
    | nil => exact .nil
    | cons t ts ih =>
      obtain ⟨ht, hself, hname⟩ := hts t List.mem_cons_self
      exact .selfClosing ht hself hname (ih fun u hu => hts u (List.mem_cons_of_mem _ hu))
  have hpath : ∀ t ∈ iconShapes, t.selfClosing = true ∧ nameOf t.name = "path" := by
    decide
  have hinner := hshapes iconShapes fun t ht =>
    ⟨isPlain_iconTag t (List.mem_cons_of_mem _ ht), hpath t ht⟩
  rw [copyIcon_eq]
  exact .drawing (isPlain_iconTag iconTag List.mem_cons_self) rfl (by decide) hinner .nil

theorem isPlainName_copyButton : IsPlainName Marks.copyButton :=
  IsOrdinaryName.isPlainName ⟨fun _ _ => rfl, fun _ => rfl, by decide, by decide, by decide⟩

end Html

/-- The button of a highlighted block. -/
def button (title : List Char) : Node :=
  .element ⟨Marks.copyButton, [⟨"title", title⟩], .page⟩ [icon]

/-- The wrapper of a highlighted block and its button. -/
def wrapped (title : List Char) (pre : Node) : Node :=
  .element ⟨"div", [⟨"class", Marks.wrapper.toList⟩], .page⟩ [pre,
    .element ⟨Marks.copyButton, [⟨"title", title⟩], .page⟩ [icon]]

/-! ## Finding them -/

theorem read_pre : Selector.read "pre" = .ofName "pre" := by
  rfl

theorem read_wrapperSelector : Selector.read CopyButtons.wrapperSelector =
    { own := { name := some "div", classes := [Marks.wrapper] } } := by
  rfl

theorem pre_fits {parent : Option Tag} {tag : Tag} {isOld : Bool} :
    (Selector.read "pre").fits isOld parent tag = ("pre" == tag.name) := by
  rw [read_pre]
  simp [Selector.fits, Selector.ofName, Simple.fits]

theorem pre_not_fits {parent : Option Tag} {isOld : Bool} :
    ∀ name ∈ ["html", "head", "body"],
      (Selector.read "pre").fits isOld parent (.bare name) = false := by
  intro name hname
  rw [pre_fits]
  revert name
  decide

theorem wrapper_fits {parent : Option Tag} {tag : Tag} {isOld : Bool} :
    (Selector.read CopyButtons.wrapperSelector).fits isOld parent tag =
      ("div" == tag.name && tag.selectsClass isOld Marks.wrapper) := by
  rw [read_wrapperSelector]
  simp [Selector.fits, Simple.fits]

theorem wrapper_not_fits {parent : Option Tag} {isOld : Bool} :
    ∀ name ∈ ["html", "head", "body"],
      (Selector.read CopyButtons.wrapperSelector).fits isOld parent (.bare name) = false := by
  intro name hname
  rw [wrapper_fits]
  have hdiv : ("div" == (Tag.bare name).name) = false := by
    revert name
    decide
  rw [hdiv, Bool.false_and]

/-! ## Highlighted blocks -/

namespace Highlighting

/-- Classes as they stand in an attribute. -/
def joined (classes : List String) : List Char :=
  (String.intercalate " " classes).toList

theorem joined_cons (first : String) {rest : List String} (h : rest ≠ []) :
    joined (first :: rest) = first.toList ++ ' ' :: joined rest := by
  rw [joined, String.intercalate_cons_of_ne_nil h, String.toList_append, String.toList_append,
    List.append_assoc]
  rfl

/-- The tag of the block that takes the place of another. -/
def preTag (pre : Tag) : Tag :=
  ⟨"pre", [⟨"class", joined (pre.classes ++ [Marks.highlighted])⟩], .page⟩

/-- The tag of its code. -/
def codeTag (code : Tag) : Tag :=
  ⟨"code", [⟨"class", joined code.classes⟩], .page⟩

theorem singleTag_classValue {name : String} {classes : List String}
    (hname : Token.IsTagName name.toList) (hclasses : ∀ c ∈ joined classes, IsPlainChar c) :
    (singleTag name "class" (classValue classes)).IsPlain ∧
      (singleTag name "class" (classValue classes)).readAttributes =
        [⟨"class", joined classes⟩] := by
  have hquote : '"' ∉ classValue classes := by
    intro hmem
    obtain ⟨c, -, hc⟩ := List.mem_flatMap.1 hmem
    exact quote_not_mem_escapeQuotedChar c hc
  exact ⟨singleTag_isPlain hname (by decide) hquote,
    singleTag_readAttributes (by decide) (escape_escapeQuotedChar.decode_flatMap true _)
      fun hmem => (hclasses _ hmem).1 rfl⟩

theorem return_not_mem_classValue {classes : List String}
    (hclasses : ∀ c ∈ joined classes, IsPlainChar c) : '\r' ∉ classValue classes :=
  fun hmem => (hclasses _ (escape_escapeQuotedChar.mem_of_mem_flatMap (by decide) hmem)).2 rfl

theorem markup_eq (pre code : Tag) (spans : String) : markup pre code spans =
    elementText (singleTag "pre" "class" (classValue (pre.classes ++ [Marks.highlighted])))
      (elementText (singleTag "code" "class" (classValue code.classes)) spans.toList ++ []) ++
        [] := by
  have hunfold : markup pre code spans = "<pre class=\"".toList ++
      classValue (pre.classes ++ [Marks.highlighted]) ++ "\"><code class=\"".toList ++
      classValue code.classes ++ "\">".toList ++ spans.toList ++ "</code></pre>".toList := rfl
  rw [hunfold]
  simp [elementText, singleTag, Token.WrittenTag.text, Token.WrittenAttribute.text,
    Token.tagEnd, Token.closingText]

/-- A highlighted block is read from its markup. -/
theorem elementOf_markup {pre code : Tag} {spans : String} {ns : List Node}
    (hpre : ∀ c ∈ joined (pre.classes ++ [Marks.highlighted]), IsPlainChar c)
    (hcode : ∀ c ∈ joined code.classes, IsPlainChar c) (h : Written true spans.toList ns)
    (hreturn : '\r' ∉ spans.toList) :
    elementOf (markup pre code spans) "pre" =
      .ok (.element (preTag pre) [.element (codeTag code) ns]) := by
  obtain ⟨htag, hread⟩ := singleTag_classValue (by decide : Token.IsTagName "pre".toList) hpre
  obtain ⟨htag', hread'⟩ := singleTag_classValue (by decide : Token.IsTagName "code".toList) hcode
  have hinner := Written.code htag' rfl (by simp only [singleTag]; decide) h .nil
  have houter := Written.pre htag rfl (by simp only [singleTag]; decide) noTextFirst_element
    hinner .nil
  rw [hread, hread'] at houter
  have hnone := return_not_mem_singleTag (by decide : '\r' ∉ "pre".toList)
    (by decide : '\r' ∉ "class".toList) (return_not_mem_classValue hpre)
    (return_not_mem_singleTag (by decide : '\r' ∉ "code".toList)
      (by decide : '\r' ∉ "class".toList) (return_not_mem_classValue hcode) hreturn)
  rw [markup_eq]
  refine elementOf_written houter (.inl rfl) ?_ (fun _ => pre_not_fits) pre_fits
  rwa [List.append_nil, List.append_nil]

end Highlighting

namespace CodeBlock

variable {language : String} {w : List Char} {ns : List Node}

theorem not_mem_languageClass (hl : language ∈ knownLanguages) :
    ∀ d ∈ classSigns, d ∉ languageClass language :=
  fun d hd hmem => (languageClass_of_mem language hl).1 d hmem hd

theorem written_code (hl : language ∈ knownLanguages) (h : Written true w ns) :
    Written false (elementText (singleTag "code" "class" (languageClass language)) w ++ [])
      [.element (codeTag language) ns] := by
  have hsign := not_mem_languageClass hl
  obtain ⟨ht, hread⟩ := singleTag_class (by decide : Token.IsTagName "code".toList) hsign
  have helement := Written.code ht rfl (by simp only [singleTag]; decide) h .nil
  rw [hread] at helement
  exact helement

theorem markup_eq (b : CodeBlock) : b.markup =
    elementText ⟨"pre".toList, [], false⟩
      (elementText (singleTag "code" "class" (languageClass b.language))
        (b.body.flatMap Text.escapeChar) ++ []) ++ [] := by
  have hunfold : b.markup = "<pre><code class=\"".toList ++ Marks.languageStart.toList ++
      b.language.toList ++ "\">".toList ++ Text.escapeText b.body ++
      "</code></pre>".toList := rfl
  rw [hunfold]
  simp [elementText, singleTag, languageClass, Token.WrittenTag.text,
    Token.WrittenAttribute.text, Token.tagEnd, Token.closingText, Text.escapeText]

/-- The markup of a code block writes its element. -/
theorem written_plain {b : CodeBlock} (hl : b.language ∈ knownLanguages)
    (hbody : ∀ c ∈ b.body, IsPlainChar c) : Written false b.markup [b.plain] := by
  have hnul : '\x00' ∉ b.body := fun hmem => (hbody _ hmem).1 rfl
  have ht : WrittenTag.IsPlain ⟨"pre".toList, [], false⟩ :=
    ⟨by decide, by simp, List.nodup_nil⟩
  rw [markup_eq]
  exact Written.pre ht rfl (by decide) noTextFirst_element
    (written_code hl (written_textNodes escape_escapeChar hnul)) .nil

/-- A code block is read from its markup. -/
theorem elementFor_eq {b : CodeBlock} (hl : b.language ∈ knownLanguages)
    (hbody : ∀ c ∈ b.body, IsPlainChar c) : Classification.elementFor b = .ok b.plain := by
  have hreturn : '\r' ∉ b.markup := by
    have hclass := not_mem_languageClass hl '\r' (by decide)
    have hescaped : '\r' ∉ b.body.flatMap Text.escapeChar :=
      (Spans.writes_escapeText hbody).noReturn
    rw [markup_eq]
    simp [elementText, singleTag, Token.WrittenTag.text, Token.WrittenAttribute.text,
      Token.tagEnd, Token.closingText, hescaped, hclass]
  exact elementOf_written (written_plain hl hbody) (.inl rfl) hreturn (fun _ => pre_not_fits)
    pre_fits

/-! ## Nothing is lost -/

/-- An element holds a block: it is a `pre` whose only child is a `code` that names the language,
and the code, without elements in it, is the text of that child. -/
inductive IsHeldBy (b : CodeBlock) : Node → Prop
  | intro {pre code : Tag} {children : List Node} (hpre : pre.name = "pre")
      (hcode : code.name = "code") (hlanguage : Marks.languageOf code = some b.language)
      (hplain : ∀ n ∈ children, n.tag? = none) (hbody : Node.textContents children = b.body) :
      b.IsHeldBy (.element pre [.element code children])

theorem tag?_of_mem_textNodes {s : List Char} {n : Node} (h : n ∈ textNodes s) :
    n.tag? = none := by
  rw [textNodes_eq] at h
  split at h
  · cases h
  · rw [List.mem_singleton.1 h]
    rfl

theorem isHeldBy_plain {b : CodeBlock} (hl : b.language ∈ knownLanguages) :
    b.IsHeldBy b.plain :=
  .intro rfl rfl (languageClass_of_mem _ hl).2.2.1 (fun _ => tag?_of_mem_textNodes)
    (textContents_textNodes b.body)

/-- An element holds one block only. -/
theorem IsHeldBy.unique {b b' : CodeBlock} {n : Node} (h : b.IsHeldBy n) (h' : b'.IsHeldBy n) :
    b = b' := by
  obtain ⟨-, -, hlanguage, -, hbody⟩ := h
  obtain ⟨-, -, hlanguage', -, hbody'⟩ := h'
  obtain ⟨language, body⟩ := b
  obtain ⟨language', body'⟩ := b'
  obtain rfl : language = language' := Option.some.inj (hlanguage.symm.trans hlanguage')
  obtain rfl : body = body' := hbody.symm.trans hbody'
  rfl

theorem isPlainChar_of_not_mem {s : List Char} (hnul : '\x00' ∉ s) (hreturn : '\r' ∉ s) :
    ∀ c ∈ s, IsPlainChar c := by
  refine fun c hc => ⟨?_, ?_⟩
  · rintro rfl
    exact hnul hc
  · rintro rfl
    exact hreturn hc

/-- **The markup of a code block is a faithful encoding of it:** the `pre` that is read from it
holds the block, whatever the code looks like. -/
theorem exists_elementOf_markup {b : CodeBlock} (hl : b.language ∈ knownLanguages)
    (hnul : '\x00' ∉ b.body) (hreturn : '\r' ∉ b.body) :
    ∃ n, elementOf b.markup "pre" = .ok n ∧ b.IsHeldBy n :=
  ⟨b.plain, elementFor_eq hl (isPlainChar_of_not_mem hnul hreturn), isHeldBy_plain hl⟩

/-- Code with blank first lines, a margin and what looks like markup and references. -/
theorem exists_elementOf_markup_tricky :
    ∃ n, elementOf (CodeBlock.mk "cpp" "\n\n  a &amp; <b>\"c\"</pre> &#10;".toList).markup "pre" =
        .ok n ∧
      (CodeBlock.mk "cpp" "\n\n  a &amp; <b>\"c\"</pre> &#10;".toList).IsHeldBy n :=
  exists_elementOf_markup (by decide +kernel) (by decide +kernel) (by decide +kernel)

/-- So blocks with the same markup are the same. -/
theorem eq_of_markup_eq {b b' : CodeBlock} (hl : b.language ∈ knownLanguages)
    (hl' : b'.language ∈ knownLanguages) (hbody : ∀ c ∈ b.body, IsPlainChar c)
    (hbody' : ∀ c ∈ b'.body, IsPlainChar c) (h : b.markup = b'.markup) : b = b' := by
  have helement := elementFor_eq hl hbody
  rw [Classification.elementFor, h] at helement
  have hplain : b'.plain = b.plain := Except.ok.inj ((elementFor_eq hl' hbody').symm.trans helement)
  exact (isHeldBy_plain hl).unique (hplain ▸ isHeldBy_plain hl')

/-! ## Highlighted -/

/-- A highlighted block, as it is written. -/
def litText (language : String) (spans : List Char) : List Char :=
  elementText (singleTag "pre" "class" Marks.highlighted.toList)
    (elementText (singleTag "code" "class" (languageClass language)) spans ++ []) ++ []

theorem written_lit (hl : language ∈ knownLanguages) (h : Written true w ns) :
    Written false (litText language w) [lit language ns] := by
  obtain ⟨ht, hread⟩ := singleTag_class (by decide : Token.IsTagName "pre".toList)
    (by decide : ∀ d ∈ classSigns, d ∉ Marks.highlighted.toList)
  have helement := Written.pre ht rfl (by simp only [singleTag]; decide) noTextFirst_element
    (written_code hl h) .nil
  rw [hread] at helement
  exact helement

/-- A highlighted block is read from its markup. -/
theorem elementOf_highlighting (hl : language ∈ knownLanguages) {spans : String}
    (h : Written true spans.toList ns) (hreturn : '\r' ∉ spans.toList) :
    elementOf (Highlighting.markup (.bare "pre") (codeTag language) spans) "pre" =
      .ok (lit language ns) := by
  have hclasses := (languageClass_of_mem language hl).2.1
  have hjoined : Highlighting.joined (codeTag language).classes = languageClass language := by
    rw [hclasses]
    exact String.toList_ofList
  have hlit : Highlighting.preTag (.bare "pre") = litTag := by decide
  have hcode : Highlighting.codeTag (codeTag language) = codeTag language := by
    rw [Highlighting.codeTag, hjoined]
    rfl
  have hpre : ∀ c ∈ Highlighting.joined ((Tag.bare "pre").classes ++ [Marks.highlighted]),
      IsPlainChar c := by
    unfold IsPlainChar
    decide
  have hclass : ∀ c ∈ Highlighting.joined (codeTag language).classes, IsPlainChar c := by
    have hsign := not_mem_languageClass hl
    rw [hjoined]
    refine fun c hc => ⟨?_, ?_⟩
    · rintro rfl
      exact hsign _ (by decide) hc
    · rintro rfl
      exact hsign _ (by decide) hc
  rw [Highlighting.elementOf_markup hpre hclass h hreturn, hlit, hcode]
  rfl

/-! ## With a button -/

/-- The button of a block, as it is written. -/
def buttonText (title : List Char) : List Char :=
  elementText (singleTag Marks.copyButton "title" (title.flatMap Text.escapeQuotedChar))
    (Marks.copyIcon.toList ++ []) ++ []

/-- A block with its button, as it is written. -/
def wrappedText (title pre : List Char) : List Char :=
  elementText (singleTag "div" "class" Marks.wrapper.toList) (pre ++ buttonText title) ++ []

/-- The start tag of a button is read with its title, but without U+0000. -/
theorem singleTag_title (title : List Char) :
    (singleTag Marks.copyButton "title" (title.flatMap Text.escapeQuotedChar)).IsPlain ∧
      (singleTag Marks.copyButton "title" (title.flatMap Text.escapeQuotedChar)).readAttributes =
        [⟨"title", Token.withoutNul title⟩] := by
  have hquote : '"' ∉ title.flatMap Text.escapeQuotedChar := by
    intro hmem
    obtain ⟨c, -, hc⟩ := List.mem_flatMap.1 hmem
    exact quote_not_mem_escapeQuotedChar c hc
  have hkey : nameOf "title".toList = "title" := by decide
  have hvalue := escape_escapeQuotedChar.decode_flatMap true title
  refine ⟨singleTag_isPlain (by decide) (by decide) hquote, ?_⟩
  simp only [WrittenTag.readAttributes, singleTag, List.map_cons, List.map_nil,
    Token.WrittenAttribute.read, hkey, hvalue]

/-- The title of a button is read without U+0000. -/
theorem written_button {k : Bool} (title : List Char) :
    Written k (buttonText title) [button (Token.withoutNul title)] := by
  obtain ⟨hbutton, hread⟩ := singleTag_title title
  have hname : nameOf Marks.copyButton.toList = Marks.copyButton := by decide
  have hinner := Written.plain hbutton rfl
    (by simp only [singleTag, hname]; exact isPlainName_copyButton)
    (written_copyIcon (k := k)) .nil
  rw [hread] at hinner
  simp only [singleTag, hname] at hinner
  exact hinner

theorem written_wrapped {pre : Node} {title : List Char} (htitle : '\x00' ∉ title)
    (h : Written false w [pre]) : Written false (wrappedText title w) [wrapped title pre] := by
  have hbutton := written_button (k := false) title
  rw [withoutNul_of_not_mem htitle] at hbutton
  exact written_div (by decide) (h.append hbutton noTextFirst_element)

theorem return_not_mem_wrappedText {title : List Char} (htitle : '\r' ∉ title)
    (hw : '\r' ∉ w) : '\r' ∉ wrappedText title w := by
  have hescaped : '\r' ∉ title.flatMap Text.escapeQuotedChar :=
    fun h => htitle (escape_escapeQuotedChar.mem_of_mem_flatMap (by decide) h)
  have hbutton := return_not_mem_singleTag (by decide : '\r' ∉ Marks.copyButton.toList)
    (by decide : '\r' ∉ "title".toList) hescaped return_not_mem_copyIcon
  have hinner : '\r' ∉ w ++ buttonText title := by
    rw [buttonText, List.append_nil, List.mem_append, not_or]
    exact ⟨hw, hbutton⟩
  have hdiv := return_not_mem_div (by decide : '\r' ∉ Marks.wrapper.toList) hinner
  rw [wrappedText, List.append_nil]
  exact hdiv

theorem copyButtons_markup_eq (title : String) (pre : Node) :
    CopyButtons.markup title pre = wrappedText title.toList pre.markup := by
  -- the names are long, so the texts are compared with variables in their places
  have hgeneral : ∀ wrapper button drawing pre title : List Char,
      "<div class=\"".toList ++ wrapper ++ "\">".toList ++ pre ++ "<".toList ++ button ++
          " title=\"".toList ++ Text.escapeQuoted title ++ "\">".toList ++ drawing ++
          "</".toList ++ button ++ "></div>".toList =
        elementText (singleTag "div" "class" wrapper)
          (pre ++ (elementText ⟨button, [⟨"title".toList, title.flatMap Text.escapeQuotedChar⟩],
            false⟩ (drawing ++ []) ++ [])) ++ [] := by
    intro wrapper button drawing pre title
    simp [elementText, singleTag, Token.WrittenTag.text, Token.WrittenAttribute.text,
      Token.tagEnd, Token.closingText, Text.escapeQuoted]
  exact hgeneral Marks.wrapper.toList Marks.copyButton.toList Marks.copyIcon.toList pre.markup
    title.toList

/-! ## Without returns -/

theorem return_not_mem_spans (hns : ∀ n ∈ ns, n.IsSpan) : '\r' ∉ Node.markupsIn false ns := by
  induction ns with
  | nil => exact List.not_mem_nil
  | cons n ns ih =>
    have htext : ∀ {s : List Char}, '\r' ∉ s → '\r' ∉ (Node.text s).markupIn false := by
      intro s hs h
      exact hs (escape_textChar.mem_of_mem_flatMap (by decide) h)
    have hn : '\r' ∉ n.markupIn false := by
      cases hns n List.mem_cons_self with
      | text hs => exact htext hs
      | @span kind s hs =>
        refine return_not_mem_markupIn (by decide) (by decide)
          (Spans.not_mem_cssClass kind '\r' (by decide)) (by decide) (by decide) ?_
        rw [Node.markupsIn, Node.markupsIn, List.append_nil]
        exact htext hs
    rw [Node.markupsIn, List.mem_append, not_or]
    exact ⟨hn, ih fun m hm => hns m (List.mem_cons_of_mem _ hm)⟩

theorem return_not_mem_lit (hl : language ∈ knownLanguages) (hns : ∀ n ∈ ns, n.IsSpan) :
    '\r' ∉ (lit language ns).markup := by
  have hcode : '\r' ∉ (Node.element (codeTag language) ns).markupIn false :=
    return_not_mem_markupIn (by decide) (by decide) (not_mem_languageClass hl _ (by decide))
      (by decide) (by decide) (return_not_mem_spans hns)
  refine return_not_mem_markupIn (by decide) (by decide) (by decide) (by decide) (by decide) ?_
  rw [Node.markupsIn, Node.markupsIn, List.append_nil]
  exact hcode

theorem return_not_mem_textNodes {s : List Char} (h : '\r' ∉ s) :
    '\r' ∉ Node.markupsIn false (textNodes s) := by
  rw [textNodes_eq]
  split
  · exact List.not_mem_nil
  · rw [Node.markupsIn, Node.markupsIn, List.append_nil]
    exact fun hmem => h (escape_textChar.mem_of_mem_flatMap (by decide) hmem)

theorem return_not_mem_plain {b : CodeBlock} (hl : b.language ∈ knownLanguages)
    (hbody : '\r' ∉ b.body) : '\r' ∉ b.plain.markup := by
  have hcode : '\r' ∉ (Node.element (codeTag b.language) (textNodes b.body)).markupIn false :=
    return_not_mem_markupIn (by decide) (by decide) (not_mem_languageClass hl _ (by decide))
      (by decide) (by decide) (return_not_mem_textNodes hbody)
  have hpre : (Tag.bare "pre").opening = "<pre>".toList ∧
      (Tag.bare "pre").closing = "</pre>".toList ∧ (Tag.bare "pre").holdsPlainText = false := by
    decide
  rw [plain, Node.markup, Node.markupIn, hpre.1, hpre.2.1, hpre.2.2, Node.markupsIn,
    Node.markupsIn, List.append_nil]
  simp [hcode]

theorem return_not_mem_wrapped {title : List Char} {pre : Node} (htitle : '\r' ∉ title)
    (hpre : '\r' ∉ pre.markup) : '\r' ∉ (wrapped title pre).markup := by
  have hicon : '\r' ∉ icon.markupIn false := by
    unfold icon iconTag iconShapes
    simp only [String.toList_append]
    repeat rw [String.toList_ofList]
    decide +kernel
  have hbutton : '\r' ∉ (Node.element ⟨Marks.copyButton, [⟨"title", title⟩], .page⟩
      [icon]).markupIn false := by
    refine return_not_mem_markupIn (by decide) (by decide) htitle (by decide) (by decide) ?_
    rw [Node.markupsIn, Node.markupsIn, List.append_nil]
    exact hicon
  refine return_not_mem_divMarkup (by decide) ?_
  rw [Node.markupsIn, Node.markupsIn, Node.markupsIn, List.append_nil, List.mem_append, not_or]
  exact ⟨hpre, hbutton⟩

/-- What is written by its own markup, alone. -/
theorem written_markup {pre : Node} (h : Written false w [pre]) :
    Written false pre.markup [pre] := by
  have hmarkup := h.markup
  rwa [Node.markupsIn, Node.markupsIn, List.append_nil] at hmarkup

/-- A block with its button is read from its markup. -/
theorem elementOf_copyButtons {pre : Node} {title : String} (htitle : '\x00' ∉ title.toList)
    (hreturn : '\r' ∉ title.toList) (h : Written false w [pre]) (hpre : '\r' ∉ pre.markup) :
    elementOf (CopyButtons.markup title pre) CopyButtons.wrapperSelector =
      .ok (wrapped title.toList pre) := by
  rw [copyButtons_markup_eq]
  refine elementOf_written (written_wrapped htitle (written_markup h)) (.inr rfl)
    (return_not_mem_wrappedText hreturn hpre) (fun _ => wrapper_not_fits) ?_
  rw [wrapper_fits]
  decide

end CodeBlock
end DocHighlighter
