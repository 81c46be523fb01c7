/-
# What the stages do with a fragment

A fragment on a page is an element with one element for each line.  The stages visit it
one after the other; what each puts in its place depends on whether its tag is known.

| stage | no known tag | a code block |
|---|---|---|
| classify | the fragment (`Fragment.element`) | the plain block |
| highlight | the fragment | the lit block, with the text of the code |
| copy buttons | the fragment | the lit block in its wrapper |
-/

import DocHighlighter.Proofs.Block.Elements
import DocHighlighter.Proofs.Block.Settled
import DocHighlighter.Proofs.Engine.Full
import DocHighlighter.Proofs.Html.Places
import DocHighlighter.Proofs.Text.Lines

namespace DocHighlighter

open Html
open Spans (IsPlainChar)

/-! ## Fragments on a page -/

namespace Fragment

/-- The tag of a fragment's element. -/
def elementTag : Tag :=
  ⟨"div", [⟨"class", Marks.fragment.toList⟩], .page⟩

/-- The tag of a line's element. -/
def lineTag : Tag :=
  ⟨"div", [⟨"class", Marks.line.toList⟩], .page⟩

/-- The element of a line. -/
def lineElement (line : List Char) : Node :=
  .element lineTag (textNodes line)

/-- The element of a fragment. -/
def element (f : Fragment) : Node :=
  .element elementTag (f.lines.map lineElement)

/-- No line of a fragment has a character that pages treat specially. -/
def IsPlain (f : Fragment) : Prop :=
  ∀ line ∈ f.lines, ∀ c ∈ line, IsPlainChar c

variable {f : Fragment}

theorem placesAll_textNodes (parent : Option Tag) (s : List Char) :
    Node.placesAll parent (textNodes s) = [] := by
  rw [textNodes_eq]
  split <;> rfl

theorem placesAll_lines (parent : Option Tag) (lines : List (List Char)) :
    Node.placesAll parent (lines.map lineElement) =
      lines.map fun line => ⟨parent, lineTag, textNodes line⟩ := by
  induction lines with
  | nil => rfl
  | cons line rest ih =>
    rw [List.map_cons, Node.placesAll, ih, lineElement, Node.places, placesAll_textNodes]
    rfl

theorem selectsClass_fits (isOld : Bool) (name : String) (parent : Option Tag) (tag : Tag) :
    (Selector.ofClass name).fits isOld parent tag = tag.selectsClass isOld name := by
  simp [Selector.fits, Selector.ofClass, Simple.fits]

/-- The fragment that is read from the element of a fragment is that one. -/
theorem ofElement_element (f : Fragment) :
    ofElement false elementTag (f.lines.map lineElement) = f := by
  have helement : elementTag.selectsClass false Marks.line = false := by decide
  have hline : lineTag.selectsClass false Marks.line = true := by decide
  have hlines : ((f.lines.map fun line =>
      (⟨some elementTag, lineTag, textNodes line⟩ : PagePlace)).filter
      fun p => (Selector.ofClass Marks.line).fits false p.parent p.tag) =
      f.lines.map fun line => ⟨some elementTag, lineTag, textNodes line⟩ := by
    rw [List.filter_eq_self]
    intro p hp
    obtain ⟨line, -, rfl⟩ := List.mem_map.1 hp
    rw [selectsClass_fits]
    exact hline
  have htext : ∀ line, (PagePlace.node ⟨some elementTag, lineTag, textNodes line⟩).textContent =
      line := fun line => textContents_textNodes line
  rw [ofElement, selectIn_eq_filter, Node.places, placesAll_lines, List.filter_cons,
    selectsClass_fits, helement, if_neg (by simp), hlines, List.map_map, List.map_map]
  simp [Function.comp_def, htext]

/-- A fragment with a known tag makes a block in a known language, with its code. -/
theorem of_classify {b : CodeBlock} (h : f.classify? = some b) :
    b.language ∈ CodeBlock.knownLanguages ∧ b.body = f.body := by
  unfold classify? at h
  cases hlookup : languages.lookup (String.ofList f.tag) with
  | none =>
    rw [hlookup] at h
    exact absurd h (by simp)
  | some language =>
    rw [hlookup] at h
    obtain rfl := Option.some.inj h
    obtain ⟨before, after, heq, -⟩ := List.lookup_eq_some_iff.1 hlookup
    refine ⟨?_, rfl⟩
    rw [CodeBlock.knownLanguages, heq]
    simp

end Fragment

/-! ## The text of the code -/

namespace Text

theorem not_of_getLast?_stripEnd {p : Char → Bool} {text : List Char} {c : Char}
    (h : (stripEnd p text).getLast? = some c) : p c = false := by
  rw [stripEnd, List.getLast?_reverse] at h
  have hhead := List.head?_dropWhile_not p text.reverse
  rw [h] at hhead
  exact hhead

/-- A text that does not end in a newline is what is left of it and the newlines behind it. -/
theorem stripEnd_append_newline {text : List Char} (h : text.getLast? ≠ some '\n') :
    stripEnd (· == '\n') (text ++ ['\n']) = text := by
  rw [stripEnd_newline]
  by_cases hnil : text = []
  · rw [hnil]
    rfl
  · obtain ⟨init, c, rfl⟩ : ∃ init c, text = init ++ [c] :=
      ⟨text.dropLast, text.getLast hnil, (List.dropLast_append_getLast hnil).symm⟩
    have hc : (c == '\n') = false := by
      refine beq_eq_false_iff_ne.2 ?_
      rintro rfl
      exact h (by simp)
    exact stripEnd_append_singleton_of_not init hc

end Text

/-- Code without returns that does not end in a newline is scanned with one behind it. -/
theorem Preparation.apply_keepingLines {text : List Char} (hreturn : '\r' ∉ text)
    (hend : text.getLast? ≠ some '\n') :
    Preparation.keepingLines.apply text = withoutMark text ++ ['\n'] := by
  have hnone : '\r' ∉ withoutMark text := fun h => hreturn (mem_of_mem_withoutMark h)
  rw [keepingLines_apply, Text.unifyNewlines_of_not_mem hnone, Text.endLine,
    if_neg (getLast?_withoutMark hend)]

/-- Preparing such code brings no character in that pages treat specially. -/
theorem Preparation.isPlainChar_keepingLines {text : List Char} (h : ∀ c ∈ text, IsPlainChar c)
    (hend : text.getLast? ≠ some '\n') :
    ∀ c ∈ Preparation.keepingLines.apply text, IsPlainChar c := by
  intro c hc
  rw [apply_keepingLines (fun hmem => (h _ hmem).2 rfl) hend] at hc
  rcases List.mem_append.1 hc with hc | hc
  · exact h c (mem_of_mem_withoutMark hc)
  · rw [List.mem_singleton.1 hc]
    simp [IsPlainChar]

namespace Fragment

variable {f : Fragment}

theorem isPlainChar_of_mem_body (h : f.IsPlain) : ∀ c ∈ f.body, IsPlainChar c := by
  intro c hc
  obtain ⟨line, hline, hmem⟩ := List.mem_flatMap.1 (Text.mem_of_mem_stripEnd hc)
  rcases List.mem_append.1 hmem with hmem | hmem
  · exact h line (List.mem_of_mem_drop hline) c hmem
  · rw [List.mem_singleton.1 hmem]
    simp [IsPlainChar]

theorem getLast?_body (f : Fragment) : f.body.getLast? ≠ some '\n' := by
  intro h
  have hblank := Text.not_of_getLast?_stripEnd h
  exact absurd hblank (by decide)

end Fragment

/-! ## Classifying -/

theorem Classification.visit_of_other {tag : Tag}
    (htag : tag.selectsClass false Marks.fragment = false) (parent : Option Tag)
    (children : List Node) (c : Classification) :
    Classification.visit false parent tag children c = ({}, c) :=
  Classification.visit_of_silent (q := ⟨parent, tag, children⟩) (silent_of_class htag)

namespace Fragment

variable {f : Fragment}

/-- What stands in the place of a fragment once it is classified. -/
def classified (f : Fragment) : Node :=
  match f.classify? with
  | none => f.element
  | some b => b.plain

/-- The blocks found, with that of a fragment. -/
def addBlock (f : Fragment) (c : Classification) : Classification :=
  match f.classify? with
  | none => c
  | some b => { c with blocks := c.blocks ++ [b] }

theorem quiet_lines {σ : Type} {visit : Visit σ} {parent : Option Tag} {s : σ}
    (h : ∀ children, visit parent lineTag children s = ({}, s)) (lines : List (List Char)) :
    Quiet visit (Node.placesAll parent (lines.map lineElement)) s := by
  intro p hp
  rw [placesAll_lines] at hp
  obtain ⟨line, -, rfl⟩ := List.mem_map.1 hp
  exact h _

/-- A visit that has nothing to say about fragments and lines leaves fragments as they are. -/
theorem rewriteIn_element {σ : Type} {visit : Visit σ} {parent : Option Tag} {s : σ}
    (helement : ∀ children, visit parent elementTag children s = ({}, s))
    (hline : ∀ parent children, visit parent lineTag children s = ({}, s)) :
    rewriteIn visit parent f.element s = (f.element, none, s) := by
  refine rewriteIn_of_quiet f.element fun p hp => ?_
  rw [element, Node.places] at hp
  rcases List.mem_cons.1 hp with rfl | hp
  · exact helement _
  · exact quiet_lines (hline _) f.lines p hp

/-- Classifying replaces a fragment with a known tag by its block. -/
theorem rewriteIn_classify (hf : f.IsPlain) (parent : Option Tag) {c : Classification}
    (hc : c.fault = none) :
    rewriteIn (Classification.visit false) parent f.element c =
        (f.classified, none, f.addBlock c) ∧ (f.addBlock c).fault = none := by
  have helement : elementTag.selectsClass false Marks.fragment = true := by decide
  have hline : lineTag.selectsClass false Marks.fragment = false := by decide
  have hlines : ∀ c, rewriteAll (Classification.visit false) (some elementTag)
      (f.lines.map lineElement) c = (f.lines.map lineElement, none, c) := fun c =>
    rewriteAll_of_quiet _
      (quiet_lines (fun children => Classification.visit_of_other hline _ children c) f.lines)
  unfold classified addBlock
  cases hclass : f.classify? with
  | none =>
    have hvisit : Classification.visit false parent elementTag (f.lines.map lineElement) c =
        ({}, c) := by
      simp [Classification.visit, selectsClass_fits, helement, hc, ofElement_element, hclass]
    refine ⟨?_, hc⟩
    rw [element, rewriteIn, hvisit]
    simp [hlines]
  | some b =>
    obtain ⟨hl, hbody⟩ := of_classify hclass
    have hplain : Classification.elementFor b = .ok b.plain :=
      CodeBlock.elementFor_eq hl fun ch hch => isPlainChar_of_mem_body hf ch (hbody ▸ hch)
    have hvisit : Classification.visit false parent elementTag (f.lines.map lineElement) c =
        ({ own := some b.plain }, { c with blocks := c.blocks ++ [b] }) := by
      simp [Classification.visit, selectsClass_fits, helement, hc, ofElement_element, hclass,
        hplain]
    refine ⟨?_, hc⟩
    rw [element, rewriteIn, hvisit]
    simp [hlines]

end Fragment

/-! ## Highlighting -/

theorem Highlighting.visit_of_other {tag : Tag} (htag : tag.name ≠ "code") (parent : Option Tag)
    (children : List Node) (h : Highlighting) :
    Highlighting.visit false parent tag children h = ({}, h) := by
  have hfits : Highlighting.codeSelector.fits false parent tag = false := by
    simp [Highlighting.codeSelector, Selector.fits, Simple.fits, Ne.symm htag]
  cases parent with
  | none => rfl
  | some pre => simp [Highlighting.visit, hfits]

/-- Spans are written and are spans, and an engine that serves gives them for the code of a block. -/
structure CodeBlock.IsLitBy (b : CodeBlock) (ns : List Node) : Prop where
  written : ∃ w, Written true w ns
  spans : ∀ n ∈ ns, n.IsSpan
  highlight : ∀ h : Highlighting, h.engine.Serves →
    h.highlight (.bare "pre") (codeTag b.language) (textNodes b.body) b.language =
      ({ around := some (lit b.language ns) },
        { h with engine := h.engine.keepLexer b.language, count := h.count + 1 })

/-- Tokens of characters that pages do not treat specially make spans that say what they say. -/
theorem CodeBlock.exists_isLitBy_of_tokens {b : CodeBlock} (hl : b.language ∈ knownLanguages)
    {tokens : List Token} (hchars : ∀ c ∈ Token.textOf tokens, IsPlainChar c)
    (htokens : ∀ e : Engine, e.Serves →
      e.highlight (String.ofList b.body) b.language = .ok (Spans.ofTokens tokens)) :
    ∃ ns, b.IsLitBy ns ∧
      Node.textContents ns = Text.stripEnd (· == '\n') (Token.textOf tokens) := by
  have hwrites := Spans.ofTokens_writes hchars
  obtain ⟨ns, hns, hspan, hcontent⟩ := hwrites.written
  refine ⟨ns, ⟨⟨_, hns⟩, hspan, fun h he => ?_⟩, hcontent⟩
  have hlight := elementOf_highlighting hl hns hwrites.noReturn
  simp [Highlighting.highlight, textContents_textNodes, htokens h.engine he, hlight]

/-- What is highlighted in a known language is spans of the code that is shown. -/
theorem CodeBlock.exists_spans {b : CodeBlock} (hl : b.language ∈ knownLanguages)
    (hplain : ∀ c ∈ b.body, IsPlainChar c) (hend : b.body.getLast? ≠ some '\n')
    (hbase : ∀ r, Language.baseOf b.language = some r →
      r.IsLossless (Preparation.keepingLines.apply b.body)) :
    ∃ ns, b.IsLitBy ns ∧ Node.textContents ns = withoutMark b.body := by
  obtain ⟨g, hg⟩ := Language.exists_tagged hl
  have hlossless : ∀ r, g.lexer = some r →
      r.IsLossless (Preparation.keepingLines.apply (String.ofList b.body).toList) := by
    intro r hr
    rw [String.toList_ofList]
    exact hbase r ((Language.lexer_of_mem_tagged _ hg).symm.trans hr)
  obtain ⟨tokens, htext, hspans⟩ := Engine.exists_highlight hg hlossless
  have hreturn : '\r' ∉ b.body := fun hmem => (hplain _ hmem).2 rfl
  rw [String.toList_ofList] at htext
  have hprepared : Token.textOf tokens = withoutMark b.body ++ ['\n'] := by
    rw [htext, Preparation.apply_keepingLines hreturn hend]
  have hchars : ∀ c ∈ Token.textOf tokens, IsPlainChar c :=
    htext ▸ Preparation.isPlainChar_keepingLines hplain hend
  obtain ⟨ns, hns, hcontent⟩ := exists_isLitBy_of_tokens hl hchars hspans
  exact ⟨ns, hns, by rw [hcontent, hprepared,
    Text.stripEnd_append_newline (getLast?_withoutMark hend)]⟩

namespace Fragment

variable {f : Fragment}

/-- What stands in the place of a fragment once its block is highlighted. -/
def lit (spans : CodeBlock → List Node) (f : Fragment) : Node :=
  match f.classify? with
  | none => f.element
  | some b => CodeBlock.lit b.language (spans b)

/-- What is known once the block of a fragment is highlighted. -/
def countBlock (f : Fragment) (h : Highlighting) : Highlighting :=
  match f.classify? with
  | none => h
  | some b => { h with engine := h.engine.keepLexer b.language, count := h.count + 1 }

/-- Highlighting replaces the block of a fragment by a lit one. -/
theorem rewriteIn_highlight {spans : CodeBlock → List Node}
    (hspans : ∀ b, f.classify? = some b → ∀ h : Highlighting, h.engine.Serves →
      h.highlight (.bare "pre") (CodeBlock.codeTag b.language) (textNodes b.body) b.language =
        ({ around := some (CodeBlock.lit b.language (spans b)) },
          { h with engine := h.engine.keepLexer b.language, count := h.count + 1 }))
    (parent : Option Tag) {h : Highlighting} (hfault : h.fault = none) (he : h.engine.Serves) :
    rewriteIn (Highlighting.visit false) parent f.classified h =
        (f.lit spans, none, f.countBlock h) ∧
      (f.countBlock h).fault = none ∧ (f.countBlock h).engine.Serves := by
  unfold classified lit countBlock
  cases hclass : f.classify? with
  | none =>
    refine ⟨rewriteIn_element (fun children => ?_) (fun parent children => ?_), hfault, he⟩
    · exact Highlighting.visit_of_other (by decide) ..
    · exact Highlighting.visit_of_other (by decide) ..
  | some b =>
    obtain ⟨hl, -⟩ := of_classify hclass
    obtain ⟨g, hg⟩ := Language.exists_tagged hl
    obtain ⟨-, -, hlanguage, -⟩ := CodeBlock.languageClass_of_mem b.language hl
    have hfits : Highlighting.codeSelector.fits false (some (.bare "pre"))
        (CodeBlock.codeTag b.language) = true := by
      simp [Highlighting.codeSelector, Selector.fits, Simple.fits, CodeBlock.codeTag, Tag.bare]
    have hmark : (Tag.bare "pre").classes.contains Marks.highlighted = false := by decide
    have hknown : Highlighting.visit false (some (.bare "pre")) (CodeBlock.codeTag b.language)
        (textNodes b.body) h = h.highlight (.bare "pre") (CodeBlock.codeTag b.language)
          (textNodes b.body) b.language := by
      simp only [Highlighting.visit, hfault, hfits, hmark, hlanguage, he.found _ hg,
        Option.isSome_none, Bool.not_true, Bool.or_false, Bool.false_eq_true, if_false]
    have hvisit := hknown.trans (hspans b hclass h he)
    have hpre : Highlighting.visit false parent (.bare "pre")
        [.element (CodeBlock.codeTag b.language) (textNodes b.body)] h = ({}, h) :=
      Highlighting.visit_of_other (by decide) ..
    have htext : ∀ h', rewriteAll (Highlighting.visit false)
        (some (CodeBlock.codeTag b.language)) (textNodes b.body) h' =
        (textNodes b.body, none, h') := by
      intro h'
      refine rewriteAll_of_quiet _ fun p hp => ?_
      rw [placesAll_textNodes] at hp
      exact absurd hp List.not_mem_nil
    refine ⟨?_, hfault, he.keepLexer hg⟩
    simp [CodeBlock.plain, rewriteIn, rewriteAll, hpre, hvisit, htext]

end Fragment

/-! ## Copy buttons -/

theorem CopyButtons.visit_of_other {tag : Tag} (htag : tag.name ≠ "pre") (title : String)
    (parent : Option Tag) (children : List Node) (c : CopyButtons) :
    CopyButtons.visit false title parent tag children c = ({}, c) :=
  CopyButtons.visit_of_silent (q := ⟨parent, tag, children⟩) (silent_of_name htag)

/-- The elements among spans are spans. -/
theorem name_of_mem_spans {ns : List Node} (hns : ∀ n ∈ ns, n.IsSpan) (parent : Option Tag) :
    ∀ p ∈ Node.placesAll parent ns, p.tag.name = "span" := by
  intro p hp
  rw [Node.placesAll_eq_flatMap] at hp
  obtain ⟨n, hn, hp⟩ := List.mem_flatMap.1 hp
  cases hns n hn with
  | text => exact absurd hp List.not_mem_nil
  | span =>
    rcases List.mem_cons.1 hp with rfl | hp
    · rfl
    · exact absurd hp List.not_mem_nil

namespace Fragment

variable {f : Fragment}

/-- What stands in the place of a fragment once its block has a button. -/
def buttoned (title : List Char) (spans : CodeBlock → List Node) (f : Fragment) : Node :=
  match f.classify? with
  | none => f.element
  | some b => wrapped title (CodeBlock.lit b.language (spans b))

/-- The buttons added, with that of a fragment's block. -/
def countButton (f : Fragment) (c : CopyButtons) : CopyButtons :=
  match f.classify? with
  | none => c
  | some _ => { c with count := c.count + 1 }

/-- Adding copy buttons puts the lit block of a fragment into its wrapper. -/
theorem rewriteIn_copy {title : String} (htitle : ∀ c ∈ title.toList, IsPlainChar c)
    {spans : CodeBlock → List Node}
    (hspans : ∀ b, f.classify? = some b →
      (∃ w, Written true w (spans b)) ∧ ∀ n ∈ spans b, n.IsSpan)
    {around : Tag} (haround : around.classes.contains Marks.wrapper = false) {c : CopyButtons}
    (hc : c.fault = none) :
    rewriteIn (CopyButtons.visit false title) (some around) (f.lit spans) c =
        (f.buttoned title.toList spans, none, f.countButton c) ∧
      (f.countButton c).fault = none := by
  unfold lit buttoned countButton
  cases hclass : f.classify? with
  | none =>
    refine ⟨rewriteIn_element (fun children => ?_) (fun parent children => ?_), hc⟩
    · exact CopyButtons.visit_of_other (by decide) ..
    · exact CopyButtons.visit_of_other (by decide) ..
  | some b =>
    obtain ⟨hl, -⟩ := of_classify hclass
    obtain ⟨⟨w, hw⟩, hspan⟩ := hspans b hclass
    have hnew : elementOf (CopyButtons.markup title (CodeBlock.lit b.language (spans b)))
        CopyButtons.wrapperSelector =
        .ok (wrapped title.toList (CodeBlock.lit b.language (spans b))) :=
      CodeBlock.elementOf_copyButtons (fun h => (htitle _ h).1 rfl) (fun h => (htitle _ h).2 rfl)
        (CodeBlock.written_lit hl hw) (CodeBlock.return_not_mem_lit hl hspan)
    have hfits : CopyButtons.blockSelector.fits false (some around) CodeBlock.litTag = true := by
      have hclassHere : CodeBlock.litTag.selectsClass false Marks.highlighted = true := by
        decide
      simp [CopyButtons.blockSelector, Selector.fits, Simple.fits, hclassHere]
      rfl
    have hvisit : CopyButtons.visit false title (some around) CodeBlock.litTag
        [.element (CodeBlock.codeTag b.language) (spans b)] c =
        ({ own := some (wrapped title.toList (CodeBlock.lit b.language (spans b))) },
          { c with count := c.count + 1 }) := by
      have hnone : (some around).any (·.classes.contains Marks.wrapper) = false := haround
      rw [CodeBlock.lit] at hnew
      simp only [CopyButtons.visit, hfits, hc, hnone, hnew, Option.isSome_none, Bool.not_true,
        Bool.or_false, Bool.false_eq_true, if_false]
      rfl
    have hinside : ∀ c', rewriteAll (CopyButtons.visit false title) (some CodeBlock.litTag)
        [.element (CodeBlock.codeTag b.language) (spans b)] c' =
        ([.element (CodeBlock.codeTag b.language) (spans b)], none, c') := by
      intro c'
      refine rewriteAll_of_quiet _ fun p hp => CopyButtons.visit_of_other ?_ ..
      rw [Node.placesAll, Node.places, Node.placesAll, List.append_nil] at hp
      rcases List.mem_cons.1 hp with rfl | hp
      · exact (by decide : "code" ≠ "pre")
      · rw [name_of_mem_spans hspan _ p hp]
        decide
    refine ⟨?_, hc⟩
    simp only [CodeBlock.lit] at hvisit ⊢
    rw [rewriteIn, hvisit]
    simp [hinside]

end Fragment
end DocHighlighter
