/-
# Rendering in two steps

A page can be rendered in a way that leaves something out: there is no engine, or no
buttons are wanted (`DoxygenPage.IsDegraded`).  What comes out is read again as the page
half-way, with the code blocks as they are, or highlighted and without buttons.  Rendering
it with a full engine goes on from there, and ends where one rendering with all stages ends
(`DoxygenPage.renderText_staged`).

| half-way | finds nothing to do | does the rest |
|---|---|---|
| code blocks (`Fragment.classified`) | classifying | highlighting, buttons |
| highlighted blocks (`Fragment.lit`) | classifying, highlighting | buttons |

Nothing is assumed of the lexers.  They give tokens for every text, of characters of that
text, so what is highlighted can be written and read whatever the tokens are.
-/

import DocHighlighter.Proofs.Lexer.ReadyMade
import DocHighlighter.Proofs.Render.FragmentsSettled
import DocHighlighter.Proofs.Scanner.Inside

namespace DocHighlighter

open Html
open Spans (IsPlainChar)

/-! ## Every block can be highlighted -/

/-- The lexers of the tagged languages give tokens for every text. -/
theorem Language.exists_tokens_of_tagged {l : String × Grammar} (hl : l ∈ tagged)
    (text : List Char) :
    ∃ lexer tokens, l.2.compile = .ok lexer ∧ lexer.tokens text = .ok tokens := by
  obtain ⟨lexer, hcompile, hlexer⟩ := exists_lexer hl
  cases hr : l.2.lexer with
  | none =>
    obtain ⟨tokens, htokens, -⟩ := (hlexer text).1 hr
    exact ⟨lexer, tokens, hcompile, htokens⟩
  | some r =>
    obtain ⟨ps, hps⟩ := r.exists_placedTokens text
    have hbase : r.lexer.tokens text = .ok (ps.map PlacedToken.token) := by
      rw [Lexer.tokens_eq, hps]
      rfl
    obtain ⟨tokens, htokens, -⟩ := (hlexer text).2 r hr _ hbase
    exact ⟨lexer, tokens, hcompile, htokens⟩

/-- The code of a block in a known language can be highlighted. -/
theorem CodeBlock.exists_isLitBy {b : CodeBlock} (hl : b.language ∈ knownLanguages)
    (hplain : ∀ c ∈ b.body, IsPlainChar c) (hend : b.body.getLast? ≠ some '\n') :
    ∃ ns, b.IsLitBy ns := by
  obtain ⟨g, hg⟩ := Language.exists_tagged hl
  obtain ⟨lexer, tokens, hcompile, htokens⟩ :=
    Language.exists_tokens_of_tagged hg (Preparation.keepingLines.apply b.body)
  have hchars : ∀ c ∈ Token.textOf tokens, IsPlainChar c := fun c hc =>
    Preparation.isPlainChar_keepingLines hplain hend c (Lexer.mem_of_tokens htokens c hc)
  have htokensOf : lexer.tokensOf .keepingLines (String.ofList b.body) = .ok tokens := by
    rw [Lexer.tokensOf, String.toList_ofList]
    exact htokens
  obtain ⟨ns, hns, -⟩ := exists_isLitBy_of_tokens hl hchars fun e he =>
    he.highlight_eq hg hcompile htokensOf
  exact ⟨ns, hns⟩

namespace DoxygenPage

open Fragment (blocksOf)

variable {withScript : Bool} {fragments : List Fragment} {spans : CodeBlock → List Node}

theorem exists_isLitBy (hplain : ∀ f ∈ fragments, f.IsPlain) :
    ∃ spans : CodeBlock → List Node, ∀ f ∈ fragments, ∀ b, f.classify? = some b →
      b.IsLitBy (spans b) := by
  refine exists_ofBlocks fun f hf b hclass => ?_
  obtain ⟨hl, hbody⟩ := Fragment.of_classify hclass
  exact CodeBlock.exists_isLitBy hl
    (fun c hc => Fragment.isPlainChar_of_mem_body (hplain f hf) c (hbody ▸ hc))
    (hbody ▸ Fragment.getLast?_body f)

end DoxygenPage

/-! ## One stage after the other -/

namespace Html.Page

variable {p p₁ p₂ p₃ : Page} {host host₁ : Option Host} {config : HighlightConfig}
  {names : List String} {log : Log} {found : Classification} {blocks buttons : Nat}

/-- Where no stage goes wrong, the page goes through them one after the other. -/
theorem render_of_stages (hregister : Host.registerAll host = (.ok names, host₁, log))
    (hclassify : p.classify = (p₁, found)) (hfound : found.fault = none)
    (hlit : (Host.highlight p₁ host₁).1 = p₂)
    (hblocks : (Host.highlight p₁ host₁).2.1 = .ok blocks)
    (hadd : p₂.addWantedButtons config = (p₃, .ok buttons)) :
    (p.render host config).result = .ok
        { filesScanned := 1, fragmentsClassified := found.blocks.length,
          fragmentsSkipped := p₁.fragmentCount, blocksHighlighted := blocks,
          copyButtons := buttons } ∧
      (p.render host config).page = p₃ := by
  rw [render, hregister]
  simp only [hclassify, hfound, renderBlocks, hblocks, hlit, hadd, and_self]

/-- On a page where no fragment has a known tag, classifying does nothing. -/
theorem classify_of_silent (h : ∀ q ∈ p.root.places none, Classification.Silent p.isOld q) :
    ∃ found, p.classify = (p, found) ∧ found.fault = none ∧ found.blocks = [] := by
  have hidle := (classify_idle_iff p).2 h
  exact ⟨p.classify.2, Prod.ext (classify_eq hidle) rfl, hidle.1, hidle.2⟩

theorem addWantedButtons_of_silent (h : p.offersCopying config = true →
    ∀ q ∈ p.root.places none, CopyButtons.Silent p.isOld q) :
    p.addWantedButtons config = (p, .ok 0) := by
  have hzero := (addWantedButtons_eq_zero_iff p config).2 h
  exact Prod.ext (addWantedButtons_eq hzero) hzero

/-- A page on which nothing was counted is the page that it was. -/
theorem page_eq_of_not_showsChange {report : RenderReport}
    (hresult : (p.render host config).result = .ok report) (hidle : report.showsChange = false) :
    (p.render host config).page = p := by
  obtain ⟨registered, host₁, log, hregister⟩ :
      ∃ registered host₁ log, Host.registerAll host = (registered, host₁, log) := ⟨_, _, _, rfl⟩
  cases registered with
  | error fault => simp [render, hregister] at hresult
  | ok names =>
    have hsettled := (render_idle_iff hregister).1 ⟨report, hresult, hidle⟩
    obtain ⟨found, hclassify, hfound, -⟩ := classify_of_silent hsettled.fragments
    have hblocks := (highlight_eq_zero_iff p host₁).2 hsettled.blocks
    exact (render_of_stages hregister hclassify hfound (highlight_eq hblocks) hblocks
      (addWantedButtons_of_silent hsettled.buttons)).2

end Html.Page

/-- What is rendered is the page that comes out, as markup, if the text was the markup of its
page. -/
theorem renderText_of_render {text : List Char} {host : Option Host} {config : HighlightConfig}
    {report : RenderReport} (hsame : (Page.read text).markup = text)
    (hresult : ((Page.read text).render host config).result = .ok report) :
    (renderText text host config).result =
      .ok (((Page.read text).render host config).page.markup, report) := by
  refine renderText_ok_iff.2 ⟨hresult, ?_⟩
  cases hshows : report.showsChange with
  | true => rfl
  | false => rw [Page.page_eq_of_not_showsChange hresult hshows, hsame]; rfl

namespace Fragment

variable {f : Fragment} {spans : CodeBlock → List Node}

/-! ## A fragment half-way -/

/-- A highlighted block is what is rendered on a page without buttons. -/
theorem lit_eq (f : Fragment) (spans : CodeBlock → List Node) :
    f.lit spans = f.rendered false [] spans := rfl

theorem placeOf_lit (hspans : f.SpansWritten spans) (parent : Option Tag) :
    ∀ q ∈ (f.lit spans).places parent, PlaceOf false f q := by
  rw [lit_eq]
  exact placeOf_rendered hspans parent

/-- What stands in the place of a fragment half-way: its block, highlighted if there was an engine. -/
def half (host : Option Host) (spans : CodeBlock → List Node) (f : Fragment) : Node :=
  if host.isSome then f.lit spans else f.classified

/-- It is written by its own markup. -/
theorem written_half (host : Option Host) (hf : f.IsPlain) (hspans : f.SpansWritten spans) :
    Written false (f.half host spans).markup [f.half host spans] ∧
      '\r' ∉ (f.half host spans).markup ∧ (f.half host spans).isText = false := by
  unfold half
  split
  · rw [lit_eq]
    exact written_rendered hf (by simp) hspans
  · unfold classified
    cases hclass : f.classify? with
    | none => exact ⟨CodeBlock.written_markup (written_element hf), return_not_mem_element hf, rfl⟩
    | some b =>
      obtain ⟨hl, hbody⟩ := of_classify hclass
      have hplain : ∀ c ∈ b.body, IsPlainChar c :=
        fun c hc => isPlainChar_of_mem_body hf c (hbody ▸ hc)
      exact ⟨CodeBlock.written_markup (CodeBlock.written_plain hl hplain),
        CodeBlock.return_not_mem_plain hl fun h => (hplain _ h).2 rfl, rfl⟩

/-- A code block is neither a fragment nor highlighted. -/
theorem silent_classified (f : Fragment) (parent : Option Tag) :
    ∀ q ∈ f.classified.places parent,
      Classification.Silent false q ∧ CopyButtons.Silent false q := by
  intro q hq
  unfold classified at hq
  cases hclass : f.classify? with
  | none =>
    rw [hclass] at hq
    simp only [places_element] at hq
    have hother : ∀ {tag : Tag}, tag.name = "div" → tag.name ≠ "pre" := by
      rintro tag hdiv
      rw [hdiv]
      decide
    rcases List.mem_cons.1 hq with rfl | hq
    · refine ⟨fun _ => ?_, CopyButtons.silent_of_name (hother rfl)⟩
      rw [ofElement_element]
      exact hclass
    · obtain ⟨line, -, rfl⟩ := List.mem_map.1 hq
      exact ⟨Classification.silent_of_class isPassedOver_lineTag.fragment,
        CopyButtons.silent_of_name (hother rfl)⟩
  | some b =>
    have hl := (of_classify hclass).1
    have hcode : ∀ language ∈ CodeBlock.knownLanguages,
        (CodeBlock.codeTag language).selectsClass false Marks.fragment = false := by
      decide
    have hpre : (Tag.bare "pre").selectsClass false Marks.fragment = false ∧
        (Tag.bare "pre").selectsClass false Marks.highlighted = false := by
      decide
    rw [hclass] at hq
    simp only [CodeBlock.plain, Node.places, Node.placesAll, placesAll_textNodes,
      List.append_nil] at hq
    rcases List.mem_cons.1 hq with rfl | hq
    · refine ⟨Classification.silent_of_class hpre.1, fun hfits => ?_⟩
      simp [CopyButtons.blockSelector, Selector.fits, Simple.fits, hpre.2] at hfits
    · obtain rfl := List.mem_singleton.1 hq
      exact ⟨Classification.silent_of_class (hcode _ hl),
        CopyButtons.silent_of_name (by decide : "code" ≠ "pre")⟩

end Fragment

namespace DoxygenPage

open Fragment (blocksOf half)

/-! ## The two renderings -/

/-- A way of rendering that leaves something out: there is no engine, or no buttons are wanted. -/
inductive IsDegraded : Option Host → HighlightConfig → Prop
  | noEngine {config : HighlightConfig} : IsDegraded none config
  | noButtons {e : Engine} {config : HighlightConfig} (he : e.IsFull)
      (hconfig : config.copyButtons = false) : IsDegraded (some { engine := e }) config

section Stages

variable (withScript : Bool) (host : Option Host) {fragments : List Fragment}
  {spans : CodeBlock → List Node} {config : HighlightConfig}

/-- Classifying finds nothing to do half-way. -/
theorem classify_half (hspans : ∀ f ∈ fragments, f.SpansWritten spans) :
    ∃ found, (page withScript (fragments.map (half host spans))).classify =
        (page withScript (fragments.map (half host spans)), found) ∧
      found.fault = none ∧ found.blocks = [] := by
  refine Page.classify_of_silent (forall_places_page (fun q hq => ?_) fun f hf q hq => ?_)
  · exact Classification.silent_of_class (isPassedOver_of_mem_frameTags withScript q.tag hq).fragment
  · unfold half at hq
    split at hq
    · exact (Fragment.placeOf_lit (hspans f hf) _ q hq).silent.1
    · exact (f.silent_classified _ q hq).1

/-- Highlighting leads from half-way to where all blocks are highlighted. -/
theorem highlight_half (hspans : ∀ f ∈ fragments, ∀ b, f.classify? = some b → b.IsLitBy (spans b))
    {e : Engine} (he : e.Serves) :
    ∃ blocks : Nat, (Host.highlight (page withScript (fragments.map (half host spans)))
        (some { engine := e })).1 = page withScript (fragments.map (Fragment.lit spans)) ∧
      (Host.highlight (page withScript (fragments.map (half host spans)))
        (some { engine := e })).2.1 = .ok blocks := by
  have hwritten := spansWritten_of_isLitBy hspans
  cases host with
  | none =>
    obtain ⟨e', hlit⟩ := host_highlight_page withScript hspans he
    have hhalf : half none spans = Fragment.classified := rfl
    rw [hhalf, hlit]
    exact ⟨_, rfl, rfl⟩
  | some h =>
    have hhalf : half (some h) spans = Fragment.lit spans := rfl
    have hsilent : ∀ q ∈ (page withScript (fragments.map (Fragment.lit spans))).root.places none,
        Highlighting.Silent false e q := by
      refine forall_places_page (fun q hq => ?_) fun f hf q hq => ?_
      · exact Highlighting.silent_of_name
          (isPassedOver_of_mem_frameTags withScript q.tag hq).code e
      · exact (Fragment.placeOf_lit (hwritten f hf) _ q hq).silent.2.1 e
    have hzero := (Page.highlight_eq_zero_iff (page withScript (fragments.map
      (Fragment.lit spans))) (some { engine := e })).2 fun h hh _ => by
        obtain rfl := Option.some.inj hh
        exact hsilent
    rw [hhalf]
    exact ⟨0, Page.highlight_eq hzero, hzero⟩

/-- A full engine goes on from half-way to the end. -/
theorem render_half (hspans : ∀ f ∈ fragments, ∀ b, f.classify? = some b → b.IsLitBy (spans b))
    {e : Engine} (he : e.IsFull) :
    ∃ report, ((page withScript (fragments.map (half host spans))).render
        (some { engine := e }) {}).result = .ok report ∧
      ((page withScript (fragments.map (half host spans))).render
        (some { engine := e }) {}).page = page withScript (fragments.map
          (Fragment.rendered withScript CopyButtons.defaultTitle.toList spans)) := by
  have hwritten := spansWritten_of_isLitBy hspans
  obtain ⟨names, e₁, hregister, hserves⟩ := exists_registerAll_of_isFull he
  obtain ⟨found, hclassify, hfound, -⟩ := classify_half withScript host hwritten
  obtain ⟨blocks, hlit, hblocks⟩ := highlight_half withScript host hspans hserves
  obtain ⟨hresult, hpage⟩ := Page.render_of_stages hregister hclassify hfound hlit hblocks
    (addWantedButtons_page withScript hwritten)
  exact ⟨_, hresult, hpage⟩

/-- Rendering that leaves something out ends half-way, and shows a change if there is a block. -/
theorem render_degraded (hplain : ∀ f ∈ fragments, f.IsPlain)
    (hspans : ∀ f ∈ fragments, ∀ b, f.classify? = some b → b.IsLitBy (spans b))
    (hdegraded : IsDegraded host config) :
    ∃ report, ((page withScript (fragments.map Fragment.element)).render host config).result =
        .ok report ∧
      ((page withScript (fragments.map Fragment.element)).render host config).page =
        page withScript (fragments.map (half host spans)) ∧
      report.fragmentsClassified = (blocksOf fragments).length ∧
      (blocksOf fragments = [] → report.showsChange = false) := by
  obtain ⟨found, hclassify, hfound, hblocks⟩ := classify_page withScript hplain
  cases hdegraded with
  | noEngine =>
    have hbuttons : (page withScript (fragments.map Fragment.classified)).addWantedButtons config =
        (page withScript (fragments.map Fragment.classified), .ok 0) := by
      refine Page.addWantedButtons_of_silent fun _ => forall_places_page (fun q hq => ?_)
        fun f _ q hq => (f.silent_classified _ q hq).2
      exact CopyButtons.silent_of_name (isPassedOver_of_mem_frameTags withScript q.tag hq).pre
    have hregister : Host.registerAll none = (.ok [], none, []) := rfl
    obtain ⟨hresult, hpage⟩ := Page.render_of_stages hregister hclassify hfound rfl rfl hbuttons
    refine ⟨_, hresult, hpage, by rw [hblocks], fun hnone => ?_⟩
    simp [RenderReport.showsChange, hblocks, hnone]
  | @noButtons e config he hconfig =>
    obtain ⟨names, e₁, hregister, hserves⟩ := exists_registerAll_of_isFull he
    obtain ⟨e', hlit⟩ := host_highlight_page withScript hspans hserves
    have hbuttons : (page withScript (fragments.map (Fragment.lit spans))).addWantedButtons config =
        (page withScript (fragments.map (Fragment.lit spans)), .ok 0) := by
      simp [Page.addWantedButtons, Page.offersCopying, hconfig]
    obtain ⟨hresult, hpage⟩ := Page.render_of_stages hregister hclassify hfound
      (congrArg Prod.fst hlit) (congrArg (fun r => r.2.1) hlit) hbuttons
    refine ⟨_, hresult, hpage, by rw [hblocks], fun hnone => ?_⟩
    simp [RenderReport.showsChange, hblocks, hnone]

end Stages

/-- **Rendering in two steps loses nothing:** a page as Doxygen makes it, with any fragments, first
rendered without an engine or without buttons, and then with a full engine, comes out as it does
when it is rendered once with a full engine. -/
theorem renderText_staged (withScript : Bool) {fragments : List Fragment}
    (hplain : ∀ f ∈ fragments, f.IsPlain) {host : Option Host} {config : HighlightConfig}
    (hdegraded : IsDegraded host config) {e e' : Engine} (he : e.IsFull) (he' : e'.IsFull) :
    ∃ half html report again once,
      (renderText (textOf withScript fragments) host config).result = .ok (half, report) ∧
      (renderText half (some { engine := e }) {}).result = .ok (html, again) ∧
      (renderText (textOf withScript fragments) (some { engine := e' }) {}).result =
        .ok (html, once) := by
  obtain ⟨spans, hspans⟩ := exists_isLitBy hplain
  have hwritten := spansWritten_of_isLitBy hspans
  have hread : Page.read (textOf withScript fragments) =
      page withScript (fragments.map Fragment.element) := read_textOf hplain
  obtain ⟨first, hfirst, hfirstPage, hclassified, hidle⟩ :=
    render_degraded withScript host hplain hspans hdegraded
  by_cases hblocks : blocksOf fragments = []
  · -- Without a block no rendering changes anything.
    have hfull : ∀ {e : Engine}, e.IsFull →
        (renderText (textOf withScript fragments) (some { engine := e }) {}).result =
          .ok (textOf withScript fragments, report withScript fragments) := by
      intro e he
      obtain ⟨e₁, hrender⟩ := render_page withScript hplain hspans he
      refine renderText_ok_iff.2 ⟨by rw [hread, hrender], ?_⟩
      simp [RenderReport.showsChange, report, hblocks]
    refine ⟨_, _, first, _, _, renderText_ok_iff.2 ⟨by rw [hread]; exact hfirst, ?_⟩, hfull he,
      hfull he'⟩
    rw [hidle hblocks]
    rfl
  · have hchanges : first.showsChange = true := by
      simp [RenderReport.showsChange, hclassified, hblocks]
    have hhalf : Page.read (page withScript (fragments.map (half host spans))).markup =
        page withScript (fragments.map (half host spans)) :=
      read_markup_page fun f hf => f.written_half host (hplain f hf) (hwritten f hf)
    obtain ⟨second, hsecond, hsecondPage⟩ := render_half withScript host hspans he
    obtain ⟨e₁, hrender⟩ := render_page withScript hplain hspans he'
    refine ⟨(page withScript (fragments.map (half host spans))).markup,
      (page withScript (fragments.map (Fragment.rendered withScript
        CopyButtons.defaultTitle.toList spans))).markup, first, second, report withScript fragments,
      renderText_ok_iff.2 ⟨by rw [hread]; exact hfirst, ?_⟩, ?_,
      renderText_ok_iff.2 ⟨by rw [hread, hrender], ?_⟩⟩
    · rw [hread, hfirstPage, hchanges]
      rfl
    · rw [renderText_of_render (by rw [hhalf]) (by rw [hhalf]; exact hsecond), hhalf, hsecondPage]
    · rw [hread, hrender]
      simp [RenderReport.showsChange, report, hblocks]

/-- The page of the samples, without an engine first. -/
theorem renderText_staged_samples :
    ∃ half html report again once,
      (renderText (textOf true samples) none {}).result = .ok (half, report) ∧
      (renderText half (some { engine := { languages := Language.builtins } }) {}).result =
        .ok (html, again) ∧
      (renderText (textOf true samples)
        (some { engine := { languages := Language.builtins } }) {}).result = .ok (html, once) := by
  have hplain : ∀ f ∈ samples, f.IsPlain := by
    unfold Fragment.IsPlain Spans.IsPlainChar
    decide +kernel
  exact renderText_staged true hplain .noEngine (Engine.isFull_builtins "default")
    (Engine.isFull_builtins "default")

end DoxygenPage
end DocHighlighter
