/-
# Rendering the fragments of a page

A page as Doxygen makes it, with fragments of any number and content, goes through all
stages (`renderText_doxygenText`): every fragment with a known tag becomes one
highlighted block, which says what the code of the fragment says, and gets a button if
the page has the script; the others stay.

The text of the code is escaped and read five times on this way.  Each time the nodes
are what some text writes, so they are read as they are; and as the stages replace the
fragments one by one, a page is at every stage the list of its fragments with what stands
in their places.
-/

import DocHighlighter.Proofs.Block.Stages
import DocHighlighter.Proofs.Render.DoxygenPage
import DocHighlighter.Render.Page
import Mathlib.Tactic.Choose

namespace DocHighlighter

open Html
open Spans (IsPlainChar)

namespace Fragment

variable {f : Fragment}

/-! ## As they are written -/

/-- A line as Doxygen writes it. -/
def lineMarkup (line : List Char) : List Char :=
  "<div class=\"line\">".toList ++ Text.escapeQuoted line ++ "</div>".toList

/-- A fragment as Doxygen writes it. -/
def markup (f : Fragment) : List Char :=
  "<div class=\"fragment\">".toList ++ f.lines.flatMap lineMarkup ++ "</div>".toList

theorem lineMarkup_eq (line : List Char) : lineMarkup line =
    elementText (singleTag "div" "class" Marks.line.toList)
      (line.flatMap Text.escapeQuotedChar) ++ [] := by
  unfold lineMarkup
  simp [elementText, singleTag, Token.WrittenTag.text, Token.WrittenAttribute.text,
    Token.tagEnd, Token.closingText, Text.escapeQuoted, Marks.line]

theorem markup_eq (f : Fragment) : f.markup =
    elementText (singleTag "div" "class" Marks.fragment.toList) (f.lines.flatMap lineMarkup) ++
      [] := by
  unfold markup
  simp [elementText, singleTag, Token.WrittenTag.text, Token.WrittenAttribute.text,
    Token.tagEnd, Token.closingText, Marks.fragment]

/-- The markup of a fragment writes its element. -/
theorem written_element (hf : f.IsPlain) : Written false f.markup [f.element] := by
  have hlines : Written false (f.lines.flatMap lineMarkup) (f.lines.map lineElement) := by
    refine written_flatMap (fun line hline => ?_) fun line _ => rfl
    have hnul : '\x00' ∉ line := fun h => (hf line hline _ h).1 rfl
    rw [lineMarkup_eq]
    exact written_div (by decide) (written_textNodes escape_escapeQuotedChar hnul)
  rw [markup_eq]
  exact written_div (by decide) hlines

theorem return_not_mem_markup (hf : f.IsPlain) : '\r' ∉ f.markup := by
  have hlines : '\r' ∉ f.lines.flatMap lineMarkup := by
    intro h
    obtain ⟨line, hline, hmem⟩ := List.mem_flatMap.1 h
    have hnone : '\r' ∉ line.flatMap Text.escapeQuotedChar := fun hm =>
      (hf line hline _ (escape_escapeQuotedChar.mem_of_mem_flatMap (by decide) hm)).2 rfl
    rw [lineMarkup_eq, List.append_nil] at hmem
    exact return_not_mem_div (by decide) hnone hmem
  rw [markup_eq, List.append_nil]
  exact return_not_mem_div (by decide) hlines

theorem return_not_mem_element (hf : f.IsPlain) : '\r' ∉ f.element.markup := by
  have htext : ∀ line ∈ f.lines, '\r' ∉ (lineElement line).markupIn false := by
    intro line hline
    exact return_not_mem_divMarkup (by decide)
      (CodeBlock.return_not_mem_textNodes fun h => (hf line hline _ h).2 rfl)
  have hlines : ∀ lines : List (List Char), (∀ line ∈ lines, '\r' ∉ (lineElement line).markupIn
      false) → '\r' ∉ Node.markupsIn false (lines.map lineElement) := by
    intro lines hlines
    induction lines with
    | nil => exact List.not_mem_nil
    | cons line rest ih =>
      rw [List.map_cons, Node.markupsIn, List.mem_append, not_or]
      exact ⟨hlines line List.mem_cons_self, ih fun l hl => hlines l (List.mem_cons_of_mem _ hl)⟩
  exact return_not_mem_divMarkup (by decide) (hlines f.lines htext)

/-! ## At the end -/

/-- What stands in the place of a fragment at the end. -/
def rendered (withScript : Bool) (title : List Char) (spans : CodeBlock → List Node)
    (f : Fragment) : Node :=
  if withScript then f.buttoned title spans else f.lit spans

/-- The spans of a fragment's block are written, and are spans. -/
def SpansWritten (spans : CodeBlock → List Node) (f : Fragment) : Prop :=
  ∀ b, f.classify? = some b → (∃ w, Written true w (spans b)) ∧ ∀ n ∈ spans b, n.IsSpan

variable {spans : CodeBlock → List Node} {title : List Char} {withScript : Bool}

/-- What stands in the place of a fragment at the end is written by its own markup. -/
theorem written_rendered (hf : f.IsPlain) (htitle : ∀ c ∈ title, IsPlainChar c)
    (hspans : f.SpansWritten spans) :
    Written false (f.rendered withScript title spans).markup [f.rendered withScript title spans] ∧
      '\r' ∉ (f.rendered withScript title spans).markup ∧
      (f.rendered withScript title spans).isText = false := by
  unfold rendered buttoned lit
  cases hclass : f.classify? with
  | none =>
    simp only [ite_self]
    exact ⟨CodeBlock.written_markup (written_element hf), return_not_mem_element hf, rfl⟩
  | some b =>
    obtain ⟨hl, -⟩ := of_classify hclass
    obtain ⟨⟨w, hw⟩, hspan⟩ := hspans b hclass
    have hlit := CodeBlock.written_lit hl hw
    have hreturn := CodeBlock.return_not_mem_lit hl hspan
    cases withScript with
    | false => exact ⟨CodeBlock.written_markup hlit, hreturn, rfl⟩
    | true =>
      have hwrapped := CodeBlock.written_wrapped (fun h => (htitle _ h).1 rfl) hlit
      exact ⟨CodeBlock.written_markup hwrapped,
        CodeBlock.return_not_mem_wrapped (fun h => (htitle _ h).2 rfl) hreturn, rfl⟩

theorem places_element (f : Fragment) (parent : Option Tag) :
    f.element.places parent = ⟨parent, elementTag, f.lines.map lineElement⟩ ::
      f.lines.map fun line => ⟨some elementTag, lineTag, textNodes line⟩ := by
  rw [element, Node.places, placesAll_lines]

/-- What is looked for at the end: the code of the highlighted blocks. -/
theorem read_code : Selector.read "pre.highlight > code" =
    { own := { name := some "code" }
      parent := some { name := some "pre", classes := [Marks.highlighted] } } := by
  rfl

theorem code_fits_of_other {tag : Tag} (h : tag.name ≠ "code") (parent : Option Tag) :
    (Selector.read "pre.highlight > code").fits false parent tag = false := by
  rw [read_code]
  simp [Selector.fits, Simple.fits, Ne.symm h]

/-- Places of other names are not found. -/
theorem filter_code_of_other {places : List PagePlace} (h : ∀ p ∈ places, p.tag.name ≠ "code") :
    places.filter (fun p => (Selector.read "pre.highlight > code").fits false p.parent p.tag) =
      [] := by
  rw [List.filter_eq_nil_iff]
  intro p hp
  simp [code_fits_of_other (h p hp)]

theorem filter_code_lit (language : String) {ns : List Node} (hns : ∀ n ∈ ns, n.IsSpan)
    (parent : Option Tag) :
    ((CodeBlock.lit language ns).places parent).filter
      (fun p => (Selector.read "pre.highlight > code").fits false p.parent p.tag) =
      [⟨some CodeBlock.litTag, CodeBlock.codeTag language, ns⟩] := by
  have hplaces : (CodeBlock.lit language ns).places parent =
      ⟨parent, CodeBlock.litTag, [.element (CodeBlock.codeTag language) ns]⟩ ::
        ⟨some CodeBlock.litTag, CodeBlock.codeTag language, ns⟩ ::
          Node.placesAll (some (CodeBlock.codeTag language)) ns := by
    simp [CodeBlock.lit, Node.places, Node.placesAll]
  have hlit : CodeBlock.litTag.selectsClass false Marks.highlighted = true := by decide
  have hfits : (Selector.read "pre.highlight > code").fits false (some CodeBlock.litTag)
      (CodeBlock.codeTag language) = true := by
    rw [read_code]
    simp [Selector.fits, Simple.fits, hlit, CodeBlock.codeTag]
    rfl
  have hspans : (Node.placesAll (some (CodeBlock.codeTag language)) ns).filter
      (fun p => (Selector.read "pre.highlight > code").fits false p.parent p.tag) = [] := by
    refine filter_code_of_other fun p hp => ?_
    rw [name_of_mem_spans hns _ p hp]
    decide
  have hpre : CodeBlock.litTag.name ≠ "code" := by decide
  rw [hplaces, List.filter_cons, code_fits_of_other hpre, List.filter_cons, hfits, hspans]
  rfl

/-- The elements of the drawing on a button. -/
theorem tag_of_mem_icon (parent : Option Tag) : ∀ p ∈ icon.places parent,
    p.tag = Foreign.tag .drawing "svg" iconTag.readAttributes ∨
      ∃ t ∈ iconShapes, p.tag = Foreign.tag .drawing "path" t.readAttributes := by
  intro p hp
  rw [icon, Node.places] at hp
  rcases List.mem_cons.1 hp with rfl | hp
  · exact .inl rfl
  · rw [Node.placesAll_eq_flatMap] at hp
    obtain ⟨n, hn, hp⟩ := List.mem_flatMap.1 hp
    obtain ⟨t, ht, rfl⟩ := List.mem_map.1 hn
    rw [Node.places, Node.placesAll] at hp
    rw [List.mem_singleton.1 hp]
    exact .inr ⟨t, ht, rfl⟩

theorem name_of_mem_icon (parent : Option Tag) :
    ∀ p ∈ icon.places parent, p.tag.name = "svg" ∨ p.tag.name = "path" := by
  have hnames : Foreign.capitalised Foreign.elementNames "svg" = "svg" ∧
      Foreign.capitalised Foreign.elementNames "path" = "path" := by decide
  intro p hp
  rcases tag_of_mem_icon parent p hp with htag | ⟨t, -, htag⟩
  · rw [htag]
    exact .inl hnames.1
  · rw [htag]
    exact .inr hnames.2

/-- In the place of a fragment, the code of its block is found. -/
theorem filter_code_rendered (hspans : f.SpansWritten spans) (parent : Option Tag) :
    (((f.rendered withScript title spans).places parent).filter
      fun p => (Selector.read "pre.highlight > code").fits false p.parent p.tag).map
        PagePlace.node =
      (f.classify?.map fun b => Node.element (CodeBlock.codeTag b.language) (spans b)).toList := by
  unfold rendered buttoned lit
  cases hclass : f.classify? with
  | none =>
    have hother : ∀ p ∈ f.element.places parent, p.tag.name ≠ "code" := by
      intro p hp
      rw [places_element] at hp
      rcases List.mem_cons.1 hp with rfl | hp
      · exact (by decide : "div" ≠ "code")
      · obtain ⟨line, -, rfl⟩ := List.mem_map.1 hp
        exact (by decide : "div" ≠ "code")
    simp only [ite_self]
    rw [filter_code_of_other hother]
    rfl
  | some b =>
    have hspan := (hspans b hclass).2
    cases withScript with
    | false =>
      simp only [Bool.false_eq_true, if_false]
      rw [filter_code_lit b.language hspan]
      rfl
    | true =>
      simp only [if_true]
      have hicon : (icon.places (some ⟨Marks.copyButton, [⟨"title", title⟩], .page⟩)).filter
          (fun p => (Selector.read "pre.highlight > code").fits false p.parent p.tag) = [] := by
        refine filter_code_of_other fun p hp => ?_
        rcases name_of_mem_icon _ p hp with hname | hname <;> rw [hname] <;> decide
      have hbutton : Marks.copyButton ≠ "code" := by decide
      rw [wrapped, Node.places, Node.placesAll, Node.placesAll, Node.placesAll, List.append_nil,
        Node.places, Node.placesAll, Node.placesAll, List.append_nil, List.filter_cons,
        code_fits_of_other (by simp), List.filter_append, filter_code_lit b.language hspan,
        List.filter_cons, code_fits_of_other hbutton, hicon]
      rfl

/-! ## What is counted -/

/-- The blocks of some fragments. -/
def blocksOf (fragments : List Fragment) : List CodeBlock :=
  fragments.filterMap classify?

theorem blocksOf_cons (f : Fragment) (fragments : List Fragment) :
    blocksOf (f :: fragments) = f.classify?.toList ++ blocksOf fragments := by
  unfold blocksOf
  cases h : f.classify? <;> simp [h]

theorem blocks_foldl_addBlock (fragments : List Fragment) (c : Classification) :
    (fragments.foldl (fun c f => f.addBlock c) c).blocks = c.blocks ++ blocksOf fragments := by
  induction fragments generalizing c with
  | nil => simp [blocksOf]
  | cons f rest ih =>
    rw [List.foldl_cons, ih, blocksOf_cons, ← List.append_assoc]
    unfold addBlock
    cases f.classify? <;> simp

theorem count_foldl_countBlock (fragments : List Fragment) (h : Highlighting) :
    (fragments.foldl (fun h f => f.countBlock h) h).count = h.count + (blocksOf fragments).length ∧
      (fragments.foldl (fun h f => f.countBlock h) h).log = h.log := by
  induction fragments generalizing h with
  | nil => exact ⟨rfl, rfl⟩
  | cons f rest ih =>
    obtain ⟨hcount, hlog⟩ := ih (f.countBlock h)
    rw [List.foldl_cons, hcount, hlog, blocksOf_cons, List.length_append]
    unfold countBlock
    cases f.classify? with
    | none => simp
    | some b =>
      refine ⟨?_, rfl⟩
      simp only [Option.toList_some, List.length_singleton]
      omega

theorem count_foldl_countButton (fragments : List Fragment) (c : CopyButtons) :
    (fragments.foldl (fun c f => f.countButton c) c).count =
      c.count + (blocksOf fragments).length := by
  induction fragments generalizing c with
  | nil => rfl
  | cons f rest ih =>
    rw [List.foldl_cons, ih, blocksOf_cons, List.length_append]
    unfold countButton
    cases f.classify? with
    | none => simp
    | some b =>
      simp only [Option.toList_some, List.length_singleton]
      omega

/-- Once a fragment is classified, it is a fragment still if its tag is not known. -/
theorem length_filter_classified (f : Fragment) (parent : Option Tag) :
    ((f.classified.places parent).filter
      fun p => (Selector.ofClass Marks.fragment).fits false p.parent p.tag).length =
      if f.classify?.isNone then 1 else 0 := by
  have helement : elementTag.selectsClass false Marks.fragment = true := by decide
  have hline : lineTag.selectsClass false Marks.fragment = false := by decide
  unfold classified
  cases hclass : f.classify? with
  | none =>
    have hlines : (f.lines.map fun line => (⟨some elementTag, lineTag, textNodes line⟩ :
        PagePlace)).filter (fun p => (Selector.ofClass Marks.fragment).fits false p.parent p.tag) =
        [] := by
      rw [List.filter_eq_nil_iff]
      intro p hp
      obtain ⟨line, -, rfl⟩ := List.mem_map.1 hp
      simp [selectsClass_fits, hline]
    simp only [Option.isNone_none, if_true]
    rw [places_element, List.filter_cons, hlines]
    simp [selectsClass_fits, helement]
  | some b =>
    obtain ⟨hl, -⟩ := of_classify hclass
    have hpre : (Tag.bare "pre").selectsClass false Marks.fragment = false := by decide
    have hknown : ∀ language ∈ CodeBlock.knownLanguages,
        (CodeBlock.codeTag language).selectsClass false Marks.fragment = false := by
      decide
    have hplaces : b.plain.places parent = [⟨parent, .bare "pre",
        [.element (CodeBlock.codeTag b.language) (textNodes b.body)]⟩,
        ⟨some (.bare "pre"), CodeBlock.codeTag b.language, textNodes b.body⟩] := by
      simp [CodeBlock.plain, Node.places, Node.placesAll, placesAll_textNodes]
    simp [hplaces, selectsClass_fits, hpre, hknown b.language hl]

end Fragment

namespace DoxygenPage

open Fragment (blocksOf)

/-- What a selector finds on a page that finds nothing outside the contents. -/
theorem select_page {withScript : Bool} {ns : List Node} {s : Selector}
    (hframe : ∀ tag ∈ frameTags withScript, ∀ parent, s.fits false parent tag = false) :
    (page withScript ns).select s =
      ((Node.placesAll (some contentsTag) ns).filter
        fun p => s.fits false p.parent p.tag).map PagePlace.node := by
  obtain ⟨frame, htags, hplaces⟩ := places_page withScript ns
  have hnone : frame.filter (fun p => s.fits (page withScript ns).isOld p.parent p.tag) = [] := by
    rw [List.filter_eq_nil_iff]
    intro p hp
    have htag : p.tag ∈ frameTags withScript := htags ▸ List.mem_map_of_mem hp
    have hfits : s.fits (page withScript ns).isOld p.parent p.tag = false :=
      hframe p.tag htag p.parent
    simp [hfits]
  rw [Page.select_eq_filter, hplaces, List.filter_append, hnone]
  rfl

/-- The fragments that remain are those without a known tag. -/
theorem fragmentCount_page (withScript : Bool) (fragments : List Fragment) :
    (page withScript (fragments.map Fragment.classified)).fragmentCount =
      (fragments.filter fun f => f.classify?.isNone).length := by
  have hframe : ∀ tag ∈ frameTags withScript, ∀ parent,
      (Selector.ofClass Marks.fragment).fits false parent tag = false := by
    have htags : ∀ tag ∈ frameTags withScript,
        tag.selectsClass false Marks.fragment = false := by
      cases withScript <;> decide
    intro tag htag parent
    rw [Fragment.selectsClass_fits]
    exact htags tag htag
  rw [Page.fragmentCount, select_page hframe, List.length_map, Node.placesAll_eq_flatMap]
  induction fragments with
  | nil => rfl
  | cons f rest ih =>
    rw [List.map_cons, List.flatMap_cons, List.filter_append, List.length_append, ih,
      Fragment.length_filter_classified, List.filter_cons]
    split
    · rw [List.length_cons]
      omega
    · omega

theorem script_fits_of_other {tag : Tag} (h : tag.name ≠ "script") (parent : Option Tag) :
    Page.copyScriptSelector.fits false parent tag = false := by
  simp [Page.copyScriptSelector, Selector.fits, Simple.fits, Ne.symm h]

theorem script_ne_of_mem_lit {spans : CodeBlock → List Node} {f : Fragment}
    (hspans : f.SpansWritten spans) (parent : Option Tag) :
    ∀ p ∈ (f.lit spans).places parent, p.tag.name ≠ "script" := by
  intro p hp
  unfold Fragment.lit at hp
  cases hclass : f.classify? with
  | none =>
    rw [hclass] at hp
    simp only [Fragment.places_element] at hp
    rcases List.mem_cons.1 hp with rfl | hp
    · exact (by decide : "div" ≠ "script")
    · obtain ⟨line, -, rfl⟩ := List.mem_map.1 hp
      exact (by decide : "div" ≠ "script")
  | some b =>
    rw [hclass] at hp
    simp only [CodeBlock.lit, Node.places, Node.placesAll, List.append_nil] at hp
    rcases List.mem_cons.1 hp with rfl | hp
    · exact (by decide : "pre" ≠ "script")
    · rcases List.mem_cons.1 hp with rfl | hp
      · exact (by decide : "code" ≠ "script")
      · rw [name_of_mem_spans (hspans b hclass).2 _ p hp]
        decide

/-- The page is to have buttons if it has the script. -/
theorem offersCopying_page (withScript : Bool) {spans : CodeBlock → List Node}
    {fragments : List Fragment} (hspans : ∀ f ∈ fragments, f.SpansWritten spans) :
    (page withScript (fragments.map (Fragment.lit spans))).offersCopying {} = withScript := by
  have hempty : ((page withScript (fragments.map (Fragment.lit spans))).select
      Page.copyScriptSelector).isEmpty = !withScript := by
    cases withScript with
    | false =>
      have hframe : ∀ tag ∈ frameTags false, ∀ parent,
          Page.copyScriptSelector.fits false parent tag = false := by
        have hnames : ∀ tag ∈ frameTags false, tag.name ≠ "script" := by decide
        exact fun tag htag parent => script_fits_of_other (hnames tag htag) parent
      rw [select_page hframe, Node.placesAll_eq_flatMap]
      have hnone : ((fragments.map (Fragment.lit spans)).flatMap
          (Node.places (some contentsTag))).filter
            (fun p => Page.copyScriptSelector.fits false p.parent p.tag) = [] := by
        rw [List.filter_eq_nil_iff]
        intro p hp
        obtain ⟨n, hn, hp⟩ := List.mem_flatMap.1 hp
        obtain ⟨f, hf, rfl⟩ := List.mem_map.1 hn
        simp [script_fits_of_other (script_ne_of_mem_lit (hspans f hf) _ p hp)]
      rw [hnone]
      rfl
    | true =>
      obtain ⟨frame, htags, hplaces⟩ := places_page true (fragments.map (Fragment.lit spans))
      have hmem : scriptTag ∈ frame.map PagePlace.tag := by
        rw [htags]
        simp [frameTags]
      obtain ⟨p, hp, htag⟩ := List.mem_map.1 hmem
      have hfits : ∀ parent, Page.copyScriptSelector.fits false parent scriptTag = true := by
        have hown : Page.copyScriptSelector.own.fits false scriptTag = true := by decide
        intro parent
        rw [Selector.fits, hown]
        rfl
      have hfound : p ∈ (((page true (fragments.map (Fragment.lit spans))).root.places none).filter
          fun p => Page.copyScriptSelector.fits
            (page true (fragments.map (Fragment.lit spans))).isOld p.parent p.tag) := by
        rw [List.mem_filter, hplaces, htag]
        exact ⟨List.mem_append_left _ hp, hfits p.parent⟩
      rw [Page.select_eq_filter, Bool.not_true, ← Bool.not_eq_true, List.isEmpty_iff]
      intro hnil
      rw [List.map_eq_nil_iff.1 hnil] at hfound
      exact absurd hfound List.not_mem_nil
  simp [Page.offersCopying, hempty]

/-! ## The stages of a page -/

section Stages

variable (withScript : Bool) {fragments : List Fragment} {spans : CodeBlock → List Node}

theorem classify_page (hplain : ∀ f ∈ fragments, f.IsPlain) :
    ∃ found, (page withScript (fragments.map Fragment.element)).classify =
        (page withScript (fragments.map Fragment.classified), found) ∧
      found.fault = none ∧ found.blocks = blocksOf fragments := by
  have hframe : ∀ tag ∈ frameTags withScript, tag.selectsClass false Marks.fragment = false := by
    cases withScript <;> decide
  have hstart : ({} : Classification).fault = none := rfl
  obtain ⟨hcontents, hfault⟩ := rewriteAll_map (fun c => c.fault = none) Fragment.addBlock
    (fun f hf c hc => Fragment.rewriteIn_classify (hplain f hf) (some contentsTag) hc) hstart
  refine ⟨_, rewrite_page (fun tag htag parent children => ?_) hcontents, hfault, ?_⟩
  · exact Classification.visit_of_other (hframe tag htag) parent children {}
  · rw [Fragment.blocks_foldl_addBlock]
    rfl

/-- The spans of a block say its code, and an engine that serves gives them. -/
def SpansOf (b : CodeBlock) (ns : List Node) : Prop :=
  (∃ w, Written true w ns) ∧ (∀ n ∈ ns, n.IsSpan) ∧
    Node.textContents ns = withoutMark b.body ∧
    ∀ h : Highlighting, h.engine.Serves →
      h.highlight (.bare "pre") (CodeBlock.codeTag b.language) (textNodes b.body) b.language =
        ({ around := some (CodeBlock.lit b.language ns) },
          { h with engine := h.engine.keepLexer b.language, count := h.count + 1 })

theorem SpansOf.isLitBy {b : CodeBlock} {ns : List Node} (h : SpansOf b ns) : b.IsLitBy ns :=
  ⟨h.1, h.2.1, h.2.2.2⟩

theorem SpansOf.written {f : Fragment} (h : ∀ b, f.classify? = some b → SpansOf b (spans b)) :
    f.SpansWritten spans :=
  fun b hb => ⟨(h b hb).1, (h b hb).2.1⟩

theorem spansWritten_of_isLitBy
    (hspans : ∀ f ∈ fragments, ∀ b, f.classify? = some b → b.IsLitBy (spans b)) :
    ∀ f ∈ fragments, f.SpansWritten spans :=
  fun f hf b hb => ⟨(hspans f hf b hb).written, (hspans f hf b hb).spans⟩

theorem highlight_page (hspans : ∀ f ∈ fragments, ∀ b, f.classify? = some b →
    b.IsLitBy (spans b)) {e : Engine} (he : e.Serves) :
    ∃ done, (page withScript (fragments.map Fragment.classified)).highlight e =
        (page withScript (fragments.map (Fragment.lit spans)), done) ∧
      done.fault = none ∧ done.count = (blocksOf fragments).length ∧ done.log = [] := by
  have hframe : ∀ tag ∈ frameTags withScript, tag.name ≠ "code" := by
    cases withScript <;> decide
  have hstart : ({ engine := e } : Highlighting).fault = none ∧
      ({ engine := e } : Highlighting).engine.Serves := ⟨rfl, he⟩
  obtain ⟨hcontents, hfault, -⟩ := rewriteAll_map
    (fun h : Highlighting => h.fault = none ∧ h.engine.Serves) Fragment.countBlock
    (fun f hf h hh => Fragment.rewriteIn_highlight (fun b hb => (hspans f hf b hb).highlight)
      (some contentsTag) hh.1 hh.2) hstart
  obtain ⟨hcount, hlog⟩ := Fragment.count_foldl_countBlock fragments { engine := e }
  refine ⟨_, rewrite_page (fun tag htag parent children => ?_) hcontents, hfault, ?_, hlog⟩
  · exact Highlighting.visit_of_other (hframe tag htag) parent children _
  · rw [hcount, Nat.zero_add]

theorem addCopyButtons_page (hspans : ∀ f ∈ fragments, f.SpansWritten spans) {title : String}
    (htitle : ∀ c ∈ title.toList, IsPlainChar c) :
    ∃ done, (page withScript (fragments.map (Fragment.lit spans))).addCopyButtons title =
        (page withScript (fragments.map (Fragment.buttoned title.toList spans)), done) ∧
      done.fault = none ∧ done.count = (blocksOf fragments).length := by
  have hframe : ∀ tag ∈ frameTags withScript, tag.name ≠ "pre" := by
    cases withScript <;> decide
  have haround : contentsTag.classes.contains Marks.wrapper = false := by decide
  have hstart : ({} : CopyButtons).fault = none := rfl
  obtain ⟨hcontents, hfault⟩ := rewriteAll_map (fun c => c.fault = none) Fragment.countButton
    (fun f hf c hc => Fragment.rewriteIn_copy htitle (hspans f hf) haround hc) hstart
  refine ⟨_, rewrite_page (fun tag htag parent children => ?_) hcontents, hfault, ?_⟩
  · exact CopyButtons.visit_of_other (hframe tag htag) title parent children {}
  · rw [Fragment.count_foldl_countButton, Nat.zero_add]

/-- What is reported about a page with the given fragments. -/
def report (withScript : Bool) (fragments : List Fragment) : RenderReport where
  filesScanned := 1
  fragmentsClassified := (blocksOf fragments).length
  fragmentsSkipped := (fragments.filter fun f => f.classify?.isNone).length
  blocksHighlighted := (blocksOf fragments).length
  copyButtons := if withScript then (blocksOf fragments).length else 0

theorem isPlainChar_defaultTitle : ∀ c ∈ CopyButtons.defaultTitle.toList, IsPlainChar c := by
  unfold IsPlainChar
  decide

/-- A full engine is one that serves, once the definitions are registered. -/
theorem exists_registerAll_of_isFull {e : Engine} (he : e.IsFull) :
    ∃ names e₁, Host.registerAll (some { engine := e }) =
      (.ok names, some { engine := e₁ }, []) ∧ e₁.Serves := by
  obtain ⟨names, e₁, hregister, hserves⟩ := he.registerAll
  exact ⟨names, e₁, by simp [Host.registerAll, hregister], hserves⟩

/-- An engine that serves highlights the blocks of a page. -/
theorem host_highlight_page (hspans : ∀ f ∈ fragments, ∀ b, f.classify? = some b →
    b.IsLitBy (spans b)) {e : Engine} (he : e.Serves) :
    ∃ e', Host.highlight (page withScript (fragments.map Fragment.classified))
      (some { engine := e }) = (page withScript (fragments.map (Fragment.lit spans)),
        .ok (blocksOf fragments).length, some { engine := e' }, []) := by
  obtain ⟨done, hhighlight, hdone, hcount, hlog⟩ := highlight_page withScript hspans he
  exact ⟨done.engine, by simp [Host.highlight, hhighlight, hdone, hcount, hlog]⟩

/-- The highlighted blocks of a page get their buttons if there is the script. -/
theorem addWantedButtons_page (hspans : ∀ f ∈ fragments, f.SpansWritten spans) :
    (page withScript (fragments.map (Fragment.lit spans))).addWantedButtons {} =
      (page withScript (fragments.map (Fragment.rendered withScript
        CopyButtons.defaultTitle.toList spans)),
        .ok (if withScript then (blocksOf fragments).length else 0)) := by
  have hoffers := offersCopying_page withScript hspans
  cases withScript with
  | false =>
    have hrendered : Fragment.rendered false CopyButtons.defaultTitle.toList spans =
        Fragment.lit spans := rfl
    simp [Page.addWantedButtons, hoffers, hrendered]
  | true =>
    obtain ⟨buttons, hcopy, hbuttons, hnumber⟩ := addCopyButtons_page true hspans
      isPlainChar_defaultTitle
    have hrendered : Fragment.rendered true CopyButtons.defaultTitle.toList spans =
        Fragment.buttoned CopyButtons.defaultTitle.toList spans := rfl
    have htitle : ({} : HighlightConfig).copyButtonTitle = CopyButtons.defaultTitle := rfl
    rw [Page.addWantedButtons, hoffers, htitle, hcopy]
    simp [hbuttons, hnumber, hrendered]

/-- All stages of a page, one after the other. -/
theorem render_page (hplain : ∀ f ∈ fragments, f.IsPlain)
    (hspans : ∀ f ∈ fragments, ∀ b, f.classify? = some b → b.IsLitBy (spans b))
    {e : Engine} (he : e.IsFull) :
    ∃ e', (page withScript (fragments.map Fragment.element)).render (some { engine := e }) {} =
      { result := .ok (report withScript fragments)
        page := page withScript (fragments.map (Fragment.rendered withScript
          CopyButtons.defaultTitle.toList spans))
        host := some { engine := e' } } := by
  have hwritten := spansWritten_of_isLitBy hspans
  obtain ⟨names, e₁, hregistered, hserves⟩ := exists_registerAll_of_isFull he
  obtain ⟨found, hclassify, hfound, hblocks⟩ := classify_page withScript hplain
  obtain ⟨e', hlit⟩ := host_highlight_page withScript hspans hserves
  refine ⟨e', ?_⟩
  rw [Page.render, hregistered]
  simp only [hclassify, hfound, Page.renderBlocks, hlit, hblocks, fragmentCount_page,
    addWantedButtons_page withScript hwritten, List.append_nil]
  cases withScript <;> simp [report]

end Stages

/-! ## From text to text -/

/-- A page with the given fragments, as Doxygen writes it. -/
def textOf (withScript : Bool) (fragments : List Fragment) : List Char :=
  text withScript (fragments.flatMap Fragment.markup)

variable {withScript : Bool} {fragments : List Fragment} {spans : CodeBlock → List Node}

theorem read_textOf (hplain : ∀ f ∈ fragments, f.IsPlain) :
    Page.read (textOf withScript fragments) =
      page withScript (fragments.map Fragment.element) := by
  refine read_text withScript (written_flatMap (fun f hf => Fragment.written_element
    (hplain f hf)) fun f _ => rfl) fun h => ?_
  obtain ⟨f, hf, hmem⟩ := List.mem_flatMap.1 h
  exact Fragment.return_not_mem_markup (hplain f hf) hmem

/-- What was rendered is read again as it is. -/
theorem read_markup_page {nodes : Fragment → Node}
    (h : ∀ f ∈ fragments, Written false (nodes f).markup [nodes f] ∧ '\r' ∉ (nodes f).markup ∧
      (nodes f).isText = false) :
    Page.read (page withScript (fragments.map nodes)).markup =
      page withScript (fragments.map nodes) := by
  have hmarkups : ∀ fs : List Fragment, Node.markupsIn false (fs.map nodes) =
      fs.flatMap fun f => (nodes f).markup := by
    intro fs
    induction fs with
    | nil => rfl
    | cons f fs ih =>
      rw [List.map_cons, Node.markupsIn, ih, List.flatMap_cons]
      rfl
  rw [markup_page, hmarkups]
  refine read_text withScript (written_flatMap (fun f hf => (h f hf).1) fun f hf => (h f hf).2.2)
    fun hmem => ?_
  obtain ⟨f, hf, hr⟩ := List.mem_flatMap.1 hmem
  exact (h f hf).2.1 hr

/-- What is found on the rendered page: the code of each block. -/
theorem select_rendered {title : List Char}
    (hspans : ∀ f ∈ fragments, f.SpansWritten spans) :
    (page withScript (fragments.map (Fragment.rendered withScript title spans))).select
        (Selector.read "pre.highlight > code") =
      (blocksOf fragments).map fun b =>
        Node.element (CodeBlock.codeTag b.language) (spans b) := by
  have hframe : ∀ tag ∈ frameTags withScript, ∀ parent,
      (Selector.read "pre.highlight > code").fits false parent tag = false := by
    have hnames : ∀ tag ∈ frameTags withScript, tag.name ≠ "code" := by
      cases withScript <;> decide
    exact fun tag htag parent => Fragment.code_fits_of_other (hnames tag htag) parent
  rw [select_page hframe, Node.placesAll_eq_flatMap]
  induction fragments with
  | nil => rfl
  | cons f rest ih =>
    have hrest := ih fun g hg => hspans g (List.mem_cons_of_mem _ hg)
    rw [List.map_cons, List.flatMap_cons, List.filter_append, List.map_append, hrest,
      Fragment.filter_code_rendered (hspans f List.mem_cons_self), Fragment.blocksOf_cons,
      List.map_append]
    cases f.classify? <;> rfl

/-- What there is for every fragment with a known tag can be chosen for all blocks at once. -/
theorem exists_ofBlocks {P : CodeBlock → List Node → Prop}
    (h : ∀ f ∈ fragments, ∀ b, f.classify? = some b → ∃ ns, P b ns) :
    ∃ spans : CodeBlock → List Node, ∀ f ∈ fragments, ∀ b, f.classify? = some b →
      P b (spans b) := by
  have hexists : ∀ b, ∃ ns, b ∈ blocksOf fragments → P b ns := by
    intro b
    by_cases hb : b ∈ blocksOf fragments
    · obtain ⟨f, hf, hclass⟩ := List.mem_filterMap.1 hb
      obtain ⟨ns, hns⟩ := h f hf b hclass
      exact ⟨ns, fun _ => hns⟩
    · exact ⟨[], fun h => absurd h hb⟩
  choose spans hspans using hexists
  exact ⟨spans, fun f hf b hb => hspans b (List.mem_filterMap.2 ⟨f, hf, hb⟩)⟩

/-- The code of fragments with a known tag is spans. -/
theorem exists_spansOf {fragments : List Fragment} (hplain : ∀ f ∈ fragments, f.IsPlain)
    (hbase : ∀ b ∈ blocksOf fragments, ∀ r, Language.baseOf b.language = some r →
      r.IsLossless (Preparation.keepingLines.apply b.body)) :
    ∃ spans : CodeBlock → List Node, ∀ f ∈ fragments, ∀ b, f.classify? = some b →
      SpansOf b (spans b) := by
  refine exists_ofBlocks fun f hf b hclass => ?_
  obtain ⟨hl, hbody⟩ := Fragment.of_classify hclass
  obtain ⟨ns, hns, htext⟩ := CodeBlock.exists_spans hl
    (fun c hc => Fragment.isPlainChar_of_mem_body (hplain f hf) c (hbody ▸ hc))
    (hbody ▸ Fragment.getLast?_body f) (hbase b (List.mem_filterMap.2 ⟨f, hf, hclass⟩))
  exact ⟨ns, hns.written, hns.spans, htext, hns.highlight⟩

/-- What a page is rendered to is read as the page of its rendered fragments, also if nothing was
to be changed. -/
theorem exists_renderText (withScript : Bool) {e : Engine} (he : e.IsFull)
    (hplain : ∀ f ∈ fragments, f.IsPlain)
    (hspans : ∀ f ∈ fragments, ∀ b, f.classify? = some b → SpansOf b (spans b)) :
    ∃ html e', renderText (textOf withScript fragments) (some { engine := e }) {} =
        { result := .ok (html, report withScript fragments), host := some { engine := e' } } ∧
      Page.read html = page withScript (fragments.map
        (Fragment.rendered withScript CopyButtons.defaultTitle.toList spans)) := by
  obtain ⟨e', hrender⟩ := render_page withScript hplain
    (fun f hf b hb => (hspans f hf b hb).isLitBy) he
  have hread : Page.read (textOf withScript fragments) =
      page withScript (fragments.map Fragment.element) := read_textOf hplain
  refine ⟨if (report withScript fragments).showsChange then
      (page withScript (fragments.map (Fragment.rendered withScript
        CopyButtons.defaultTitle.toList spans))).markup
    else textOf withScript fragments, e', ?_, ?_⟩
  · rw [renderText, hread, hrender]
  by_cases hblocks : blocksOf fragments = []
  · have hshows : (report withScript fragments).showsChange = false := by
      simp [RenderReport.showsChange, report, hblocks]
    have hsame : fragments.map (Fragment.rendered withScript CopyButtons.defaultTitle.toList
        spans) = fragments.map Fragment.element := by
      refine List.map_congr_left fun f hf => ?_
      have hnone : f.classify? = none := List.filterMap_eq_nil_iff.1 hblocks f hf
      simp [Fragment.rendered, Fragment.buttoned, Fragment.lit, hnone]
    rw [hshows, if_neg (by simp), hread, hsame]
  · have hshows : (report withScript fragments).showsChange = true := by
      simp [RenderReport.showsChange, report, hblocks]
    rw [hshows, if_pos rfl]
    exact read_markup_page fun f hf => Fragment.written_rendered (hplain f hf)
      isPlainChar_defaultTitle (SpansOf.written (hspans f hf))

/-- **Rendering the fragments of a page.**  A page as Doxygen makes it, with any fragments, is
rendered by a full engine: every fragment with a known tag is counted and highlighted, the others
are counted as skipped, and there are buttons if there is the script.  On the page that comes out,
the highlighted code is that of these fragments in their order, under the class of its language,
without the mark at its beginning and otherwise as it was. -/
theorem renderText_textOf {e : Engine} (he : e.IsFull) (withScript : Bool)
    {fragments : List Fragment} (hplain : ∀ f ∈ fragments, f.IsPlain)
    (hbase : ∀ b ∈ blocksOf fragments, ∀ r, Language.baseOf b.language = some r →
      r.IsLossless (Preparation.keepingLines.apply b.body)) :
    ∃ html e', renderText (textOf withScript fragments) (some { engine := e }) {} =
        { result := .ok (html, report withScript fragments), host := some { engine := e' } } ∧
      ((Page.read html).select (Selector.read "pre.highlight > code")).map
          (fun n => (n.tag?.map Tag.classes, n.textContent)) =
        (blocksOf fragments).map fun b =>
          (some ["language-" ++ b.language], withoutMark b.body) := by
  obtain ⟨spans, hspans⟩ := exists_spansOf hplain hbase
  obtain ⟨html, e', hrender, hpage⟩ := exists_renderText withScript he hplain hspans
  refine ⟨html, e', hrender, ?_⟩
  rw [hpage, select_rendered fun f hf => SpansOf.written (hspans f hf), List.map_map]
  refine List.map_congr_left fun b hb => ?_
  obtain ⟨f, hf, hclass⟩ := List.mem_filterMap.1 hb
  have hclasses := (CodeBlock.languageClass_of_mem b.language
    (Fragment.of_classify hclass).1).2.1
  have hname : String.ofList (CodeBlock.languageClass b.language) = "language-" ++ b.language := by
    rw [CodeBlock.languageClass, String.ofList_append, String.ofList_toList,
      String.ofList_toList]
    rfl
  have htext : (Node.element (CodeBlock.codeTag b.language) (spans b)).textContent =
      withoutMark b.body := (hspans f hf b hclass).2.2.1
  simp only [Function.comp_apply, Node.tag?, Option.map_some, hclasses, hname, htext]

/-- Fragments with a known tag and without, with no lines, and with an empty one. -/
def samples : List Fragment :=
  [⟨["@idl".toList, "api A<T> & \"B\"".toList]⟩, ⟨["plain".toList]⟩, ⟨[]⟩,
    ⟨["@json".toList, "[1, 2]".toList, "".toList]⟩]

/-- The page of these fragments, with buttons. -/
theorem renderText_samples :
    ∃ html e', renderText (textOf true samples)
          (some { engine := { languages := Language.builtins } }) {} =
        ⟨.ok (html,
          { filesScanned := 1, fragmentsClassified := 2, fragmentsSkipped := 2,
            blocksHighlighted := 2, copyButtons := 2 }), some { engine := e' }, []⟩ ∧
      ((Page.read html).select (Selector.read "pre.highlight > code")).map
          (fun n => (n.tag?.map Tag.classes, n.textContent)) =
        [(some ["language-idl"], "api A<T> & \"B\"".toList),
          (some ["language-json"], "[1, 2]".toList)] := by
  have hplain : ∀ f ∈ samples, f.IsPlain := by
    unfold Fragment.IsPlain Spans.IsPlainChar
    decide +kernel
  have hblocks : blocksOf samples =
      [⟨"idl", "api A<T> & \"B\"".toList⟩, ⟨"json", "[1, 2]".toList⟩] := by
    decide +kernel
  have hjson : ReadyMade.json.IsLossless (Preparation.keepingLines.apply "[1, 2]".toList) :=
    ⟨_, rfl, by decide +kernel⟩
  have hnone : Language.baseOf "idl" = none := by decide
  have hsome : Language.baseOf "json" = some .json := by decide
  have hbase : ∀ b ∈ blocksOf samples, ∀ r, Language.baseOf b.language = some r →
      r.IsLossless (Preparation.keepingLines.apply b.body) := by
    intro b hb r hr
    rw [hblocks] at hb
    rcases List.mem_cons.1 hb with rfl | hb
    · exact absurd (hnone.symm.trans hr) (by simp)
    · obtain rfl := List.mem_singleton.1 hb
      obtain rfl := Option.some.inj (hsome.symm.trans hr)
      exact hjson
  have hreport : report true samples =
      { filesScanned := 1, fragmentsClassified := 2, fragmentsSkipped := 2,
        blocksHighlighted := 2, copyButtons := 2 } := by
    decide +kernel
  have hcode : (blocksOf samples).map (fun b =>
      (some ["language-" ++ b.language], withoutMark b.body)) =
      [(some ["language-idl"], "api A<T> & \"B\"".toList),
        (some ["language-json"], "[1, 2]".toList)] := by
    decide +kernel
  rw [← hreport, ← hcode]
  exact renderText_textOf (Engine.isFull_builtins "default") true hplain hbase

end DoxygenPage
end DocHighlighter
