/-
# Rendering again

A page is settled for an engine and some settings if no stage has anything to do at any
of its places (`Html.Page.IsSettled`).  Rendering a page changes nothing exactly if it is
settled (`renderText_idle_iff`), and when a page has been rendered the engine has nothing
left to register.  So rendering what came out changes nothing exactly if the page read
from it is settled (`renderText_again_iff`).

Not every page is settled by rendering it: each stage asks about the elements as they
were before it, so of two fragments, one in the first line of the other, the outer one may
get a known tag only when the inner one is replaced (`not_forall_renderText_again`).
-/

import DocHighlighter.Proofs.Block.Settled
import DocHighlighter.Proofs.Engine.Registered
import DocHighlighter.Render.Page

namespace DocHighlighter

open Html

/-- No stage has anything to do on a page. -/
structure Html.Page.IsSettled (p : Page) (host : Option Host) (config : HighlightConfig) :
    Prop where
  fragments : ∀ q ∈ p.root.places none, Classification.Silent p.isOld q
  blocks : ∀ h ∈ host, h.canHighlight = true →
    ∀ q ∈ p.root.places none, Highlighting.Silent p.isOld h.engine q
  buttons : p.offersCopying config = true → ∀ q ∈ p.root.places none, CopyButtons.Silent p.isOld q

/-! ## The stages -/

namespace Html.Page

variable {p : Page} {host host₁ : Option Host} {config : HighlightConfig} {report : RenderReport}
  {log : Log} {names : List String}

theorem classify_idle_iff (p : Page) :
    p.classify.2.Idle ↔ ∀ q ∈ p.root.places none, Classification.Silent p.isOld q := by
  have hstart : ({} : Classification).Idle := ⟨rfl, rfl⟩
  rw [classify, (Classification.rests p.isOld).idle_rewrite_iff]
  exact and_iff_right hstart

theorem classify_eq (h : p.classify.2.Idle) : p.classify.1 = p :=
  (Classification.rests p.isOld).page_rewrite_eq h

theorem highlight_eq_zero_iff (p : Page) (host : Option Host) :
    (Host.highlight p host).2.1 = .ok 0 ↔ ∀ h ∈ host, h.canHighlight = true →
      ∀ q ∈ p.root.places none, Highlighting.Silent p.isOld h.engine q := by
  cases host with
  | none => simp [Host.highlight]
  | some h =>
    by_cases hcan : h.canHighlight = true
    · have hstart : ({ engine := h.engine } : Highlighting).Idle := ⟨rfl, rfl⟩
      have hidle := (Highlighting.rests p.isOld).idle_rewrite_iff p { engine := h.engine }
      have hresult : (Host.highlight p (some h)).2.1 = .ok 0 ↔ (p.highlight h.engine).2.Idle := by
        simp only [Host.highlight, hcan, if_true, Highlighting.Idle]
        cases (p.highlight h.engine).2.fault <;> simp
      rw [hresult, highlight, hidle]
      simp [hstart, hcan]
    · simp [Host.highlight, hcan]

theorem highlight_eq (h : (Host.highlight p host).2.1 = .ok 0) : (Host.highlight p host).1 = p := by
  cases host with
  | none => rfl
  | some h₁ =>
    by_cases hcan : h₁.canHighlight = true
    · have hresult : (Host.highlight p (some h₁)).1 = (p.highlight h₁.engine).1 := by
        simp [Host.highlight, hcan]
      have hidle : (p.highlight h₁.engine).2.Idle := by
        simp only [Host.highlight, hcan, if_true] at h
        cases hfault : (p.highlight h₁.engine).2.fault with
        | some fault => simp [hfault] at h
        | none => exact ⟨hfault, by simpa [hfault] using h⟩
      rw [hresult]
      exact (Highlighting.rests p.isOld).page_rewrite_eq hidle
    · simp [Host.highlight, hcan]

theorem addWantedButtons_eq_zero_iff (p : Page) (config : HighlightConfig) :
    (p.addWantedButtons config).2 = .ok 0 ↔ (p.offersCopying config = true →
      ∀ q ∈ p.root.places none, CopyButtons.Silent p.isOld q) := by
  by_cases hoffers : p.offersCopying config = true
  · have hstart : ({} : CopyButtons).Idle := ⟨rfl, rfl⟩
    have hresult : (p.addWantedButtons config).2 = .ok 0 ↔
        (p.addCopyButtons config.copyButtonTitle).2.Idle := by
      simp only [addWantedButtons, hoffers, if_true, CopyButtons.Idle]
      cases (p.addCopyButtons config.copyButtonTitle).2.fault <;> simp
    rw [hresult, addCopyButtons, (CopyButtons.rests p.isOld _).idle_rewrite_iff]
    simp [hstart, hoffers]
  · simp [addWantedButtons, hoffers]

theorem addWantedButtons_eq (h : (p.addWantedButtons config).2 = .ok 0) :
    (p.addWantedButtons config).1 = p := by
  by_cases hoffers : p.offersCopying config = true
  · have hresult : (p.addWantedButtons config).1 =
        (p.addCopyButtons config.copyButtonTitle).1 := by
      simp only [addWantedButtons, hoffers, if_true]
      split <;> rfl
    have hidle : (p.addCopyButtons config.copyButtonTitle).2.Idle := by
      simp only [addWantedButtons, hoffers, if_true] at h
      cases hfault : (p.addCopyButtons config.copyButtonTitle).2.fault with
      | some fault => simp [hfault] at h
      | none => exact ⟨hfault, by simpa [hfault] using h⟩
    rw [hresult]
    exact (CopyButtons.rests p.isOld config.copyButtonTitle).page_rewrite_eq hidle
  · simp [addWantedButtons, hoffers]

/-! ## All of them -/

/-- The last two stages give a report if both count. -/
theorem renderBlocks_ok_iff {start : RenderReport} :
    (p.renderBlocks host config start log).result = .ok report ↔
      ∃ blocks buttons, (Host.highlight p host).2.1 = .ok blocks ∧
        ((Host.highlight p host).1.addWantedButtons config).2 = .ok buttons ∧
        report = { start with blocksHighlighted := blocks, copyButtons := buttons } := by
  unfold renderBlocks
  cases hblocks : (Host.highlight p host).2.1 with
  | error fault => simp [hblocks]
  | ok blocks =>
    cases hbuttons : ((Host.highlight p host).1.addWantedButtons config).2 with
    | error fault => simp [hblocks, hbuttons]
    | ok buttons => simp [hblocks, hbuttons, eq_comm]

/-- A page is rendered if its fragments are classified and the last two stages give a report. -/
theorem render_ok_iff (hregister : Host.registerAll host = (.ok names, host₁, log)) :
    (p.render host config).result = .ok report ↔ p.classify.2.fault = none ∧
      (p.classify.1.renderBlocks host₁ config
        { filesScanned := 1, fragmentsClassified := p.classify.2.blocks.length,
          fragmentsSkipped := p.classify.1.fragmentCount } log).result = .ok report := by
  rw [render, hregister]
  cases hfault : p.classify.2.fault with
  | some fault => simp [hfault]
  | none => simp [hfault]

/-- **Rendering changes nothing exactly on a settled page.** -/
theorem render_idle_iff (hregister : Host.registerAll host = (.ok names, host₁, log)) :
    (∃ report, (p.render host config).result = .ok report ∧ report.showsChange = false) ↔
      p.IsSettled host₁ config := by
  constructor
  · rintro ⟨report, hrender, hidle⟩
    obtain ⟨hfault, hlast⟩ := (render_ok_iff hregister).1 hrender
    obtain ⟨blocks, buttons, hblocks, hbuttons, rfl⟩ := renderBlocks_ok_iff.1 hlast
    simp only [RenderReport.showsChange, Bool.or_eq_false_iff, bne_eq_false_iff_eq] at hidle
    obtain ⟨⟨hfound, hlit⟩, hadded⟩ := hidle
    have hclassify : p.classify.2.Idle :=
      ⟨hfault, List.length_eq_zero_iff.1 (by exact_mod_cast hfound)⟩
    have hzero : blocks = 0 ∧ buttons = 0 := by omega
    obtain ⟨rfl, rfl⟩ := hzero
    rw [classify_eq hclassify] at hblocks hbuttons
    rw [highlight_eq hblocks] at hbuttons
    exact ⟨(classify_idle_iff p).1 hclassify, (highlight_eq_zero_iff p host₁).1 hblocks,
      (addWantedButtons_eq_zero_iff p config).1 hbuttons⟩
  · intro h
    have hclassify := (classify_idle_iff p).2 h.fragments
    have hblocks := (highlight_eq_zero_iff p host₁).2 h.blocks
    have hbuttons := (addWantedButtons_eq_zero_iff p config).2 h.buttons
    refine ⟨_, (render_ok_iff hregister).2 ⟨hclassify.1, renderBlocks_ok_iff.2
      ⟨0, 0, ?_, ?_, rfl⟩⟩, ?_⟩
    · rwa [classify_eq hclassify]
    · rwa [classify_eq hclassify, highlight_eq hblocks]
    · simp [RenderReport.showsChange, hclassify.2]

end Html.Page

/-! ## Registering again -/

namespace Host

/-- The engine, if it can register, has nothing left to register. -/
def IsRegistered (host : Option Host) : Prop :=
  ∀ h ∈ host, h.canRegister = true → h.engine.IsRegistered

variable {host : Option Host}

theorem isRegistered_registerAll (host : Option Host) : IsRegistered (registerAll host).2.1 := by
  cases host with
  | none => exact fun h hh => absurd hh (by simp [registerAll])
  | some h =>
    by_cases hcan : h.canRegister = true
    · intro h₁ hh _
      simp only [registerAll, hcan, if_true, Option.mem_def, Option.some.injEq] at hh
      rw [← hh]
      exact h.engine.isRegistered_registerAll
    · intro h₁ hh hcan₁
      simp only [registerAll, hcan, Option.mem_def] at hh
      obtain rfl := Option.some.inj hh
      exact absurd hcan₁ hcan

theorem IsRegistered.highlight (h : IsRegistered host) (p : Page) :
    IsRegistered (Host.highlight p host).2.2.1 := by
  cases host with
  | none => exact fun h₁ hh => absurd hh (by simp [Host.highlight])
  | some h₀ =>
    by_cases hcan : h₀.canHighlight = true
    · intro h₁ hh hregister
      simp only [Host.highlight, hcan, if_true, Option.mem_def, Option.some.injEq] at hh
      obtain rfl := hh
      exact (h h₀ rfl hregister).of_languages (Highlighting.languages_highlight p h₀.engine)
    · simpa [Host.highlight, hcan] using h

/-- Registering again changes nothing. -/
theorem IsRegistered.registerAll (h : IsRegistered host) :
    ∃ log, Host.registerAll host = (.ok [], host, log) := by
  cases host with
  | none => exact ⟨[], rfl⟩
  | some h₀ =>
    by_cases hcan : h₀.canRegister = true
    · obtain ⟨log, hlog⟩ := (h h₀ rfl hcan).registerAll
      refine ⟨log, ?_⟩
      rw [Host.registerAll, if_pos hcan, hlog]
    · exact ⟨[], by simp [Host.registerAll, hcan]⟩

/-- When a page has been rendered, its engine has nothing left to register. -/
theorem isRegistered_render (p : Page) (host : Option Host) (config : HighlightConfig) :
    IsRegistered (p.render host config).host := by
  have hstart := isRegistered_registerAll host
  unfold Page.render Page.renderBlocks
  dsimp only
  split
  · exact hstart
  · split
    · exact hstart
    · split
      · exact hstart.highlight _
      · split <;> exact hstart.highlight _

end Host

/-! ## Rendering again -/

variable {text html : List Char} {host host₁ : Option Host} {config : HighlightConfig}
  {report : RenderReport} {log : Log} {names : List String}

theorem RenderReport.showsChange_eq_false_iff : report.showsChange = false ↔
    report.fragmentsClassified = 0 ∧ report.blocksHighlighted = 0 ∧ report.copyButtons = 0 := by
  simp [showsChange, and_assoc]

theorem renderText_host (text : List Char) (host : Option Host) (config : HighlightConfig) :
    (renderText text host config).host = ((Page.read text).render host config).host := by
  unfold renderText
  dsimp only
  split <;> rfl

theorem renderText_ok_iff : (renderText text host config).result = .ok (html, report) ↔
    ((Page.read text).render host config).result = .ok report ∧
      html = if report.showsChange then ((Page.read text).render host config).page.markup
        else text := by
  cases hresult : ((Page.read text).render host config).result with
  | error fault => simp [renderText, hresult]
  | ok report' =>
    simp only [renderText, hresult, Except.ok.injEq, Prod.mk.injEq]
    constructor
    · rintro ⟨rfl, rfl⟩
      exact ⟨rfl, rfl⟩
    · rintro ⟨rfl, rfl⟩
      exact ⟨rfl, rfl⟩

/-- A text is rendered to itself, with nothing counted, exactly if it is a settled page. -/
theorem renderText_idle_iff (hregister : Host.registerAll host = (.ok names, host₁, log)) :
    (∃ report, (renderText text host config).result = .ok (text, report) ∧
        report.showsChange = false) ↔ (Page.read text).IsSettled host₁ config := by
  have hresult : ∀ report, (renderText text host config).result = .ok (text, report) ∧
      report.showsChange = false ↔
        ((Page.read text).render host config).result = .ok report ∧ report.showsChange = false := by
    intro report
    refine and_congr_left fun hidle => ?_
    rw [renderText_ok_iff]
    simp [hidle]
  rw [← Page.render_idle_iff hregister]
  exact exists_congr hresult

/-- What a text is rendered to stays as it is when it is rendered again with the same engine and
settings, and nothing is counted. -/
def StaysRendered (text : List Char) (host : Option Host) (config : HighlightConfig) : Prop :=
  ∀ html report, (renderText text host config).result = .ok (html, report) →
    ∃ again, (renderText html (renderText text host config).host config).result =
        .ok (html, again) ∧
      again.fragmentsClassified = 0 ∧ again.blocksHighlighted = 0 ∧ again.copyButtons = 0

/-- Rendering again changes nothing exactly on a settled page. -/
theorem renderText_again_iff (text html : List Char) (host : Option Host)
    (config : HighlightConfig) :
    (∃ again, (renderText html (renderText text host config).host config).result =
          .ok (html, again) ∧
        again.fragmentsClassified = 0 ∧ again.blocksHighlighted = 0 ∧ again.copyButtons = 0) ↔
      (Page.read html).IsSettled (renderText text host config).host config := by
  obtain ⟨log, hregister⟩ := (Host.isRegistered_render (Page.read text) host config).registerAll
  rw [renderText_host, ← renderText_idle_iff hregister]
  exact exists_congr fun again => and_congr_right' RenderReport.showsChange_eq_false_iff.symm

/-- **What is rendered stays so exactly if it is settled**: what comes out is a page where, with
the engine as it is then, no fragment has a known tag, no code that is not highlighted is in a
language of the engine, and, if there are to be buttons, every highlighted block has its own. -/
theorem staysRendered_iff (text : List Char) (host : Option Host) (config : HighlightConfig) :
    StaysRendered text host config ↔
      ∀ html report, (renderText text host config).result = .ok (html, report) →
        (Page.read html).IsSettled (renderText text host config).host config :=
  forall_congr' fun html => forall_congr' fun _ => imp_congr_right fun _ =>
    renderText_again_iff text html host config

/-! ## A page that is not settled -/

/-- A fragment inside the first line of another. -/
def nestedFragments : List Char :=
  ("<!DOCTYPE html><div class=\"fragment\"><div class=\"line\">@json" ++
    "<div class=\"fragment\"><div class=\"line\">@idl</div></div></div></div>").toList

/-- What is left when the inner fragment is replaced: the outer one has a known tag now. -/
def outerFragment : List Char :=
  ("<!DOCTYPE html><html><head></head><body><div class=\"fragment\"><div class=\"line\">@json" ++
    "<pre><code class=\"language-idl\"></code></pre></div></div></body></html>").toList

/-- **Rendering does not settle every page**: the outer fragment is counted when what comes out is
rendered again. -/
theorem not_forall_staysRendered : ¬ ∀ text host config, StaysRendered text host config := by
  intro h
  have hfirst : (renderText nestedFragments none {}).result.toOption = some (outerFragment,
      { filesScanned := 1, fragmentsClassified := 1, fragmentsSkipped := 1 }) := by
    unfold nestedFragments outerFragment
    simp only [String.toList_append]
    repeat rw [String.toList_ofList]
    decide +kernel
  have hsecond : (renderText outerFragment none {}).result.toOption.map
      (fun r => r.2.fragmentsClassified) = some 1 := by
    unfold outerFragment
    simp only [String.toList_append]
    repeat rw [String.toList_ofList]
    decide +kernel
  have hhost : (renderText nestedFragments none {}).host = none := by
    rw [renderText_host]
    unfold Page.render Page.renderBlocks
    dsimp only [Host.registerAll, Host.highlight]
    repeat' split
    all_goals rfl
  have hok : ∀ {x : Except RenderFault (List Char × RenderReport)} {r},
      x.toOption = some r → x = .ok r := by
    intro x r hx
    cases x with
    | error fault => cases hx
    | ok r' => rw [Option.some.inj hx]
  obtain ⟨again, hagain, hzero, -⟩ := h nestedFragments none {} _ _ (hok hfirst)
  rw [hhost] at hagain
  rw [hagain] at hsecond
  simp [Except.toOption, hzero] at hsecond

end DocHighlighter
