/-
# Engines that render alike

What an engine makes of a page depends on its table and on which of its abilities can be
used, and not on the lexers that it has made, as long as these are the right ones.  So
engines with one unambiguous table are alike (`Engine.Alike`), and highlighting and
rendering give the same with them.

| lemma | says |
|---|---|
| `Engine.Alike.highlight_eq` | alike engines make the same spans |
| `Html.Page.highlight_of_alike` | and the same pages, and are alike afterwards |
| `Host.BecomesLike.renderText_eq` | rendering a text gives the same, and goes on doing so |

An engine that renders pages one after the other becomes like a fresh one in which the
definitions are registered (`Host.BecomesLike`), and stays so.
-/

import DocHighlighter.Proofs.Engine.Coherent
import DocHighlighter.Proofs.Render.Settled

namespace DocHighlighter

open Html

/-! ## Engines -/

namespace Engine

/-- Two engines have the same table, in which grammars that share a name have the same lexer, and
what they have kept are lexers of its grammars. -/
structure Alike (e e' : Engine) : Prop where
  languages : e'.languages = e.languages
  unambiguous : e.IsUnambiguous
  left : e.KeepsOwn
  right : e'.KeepsOwn

variable {e e' : Engine}

theorem Alike.get?_eq (h : e.Alike e') (name : String) : e'.get? name = e.get? name :=
  get?_congr h.languages name

/-- Alike engines give the same lexers. -/
theorem Alike.lexer_eq (h : e.Alike e') (name : String) :
    (e'.lexer name).map (·.1) = (e.lexer name).map (·.1) := by
  have hget := h.get?_eq name
  cases hname : e.get? name with
  | none => rw [lexer, lexer, hget, hname]
  | some g =>
    rw [h.left.lexer_eq h.unambiguous hname,
      h.right.lexer_eq (h.unambiguous.of_languages h.languages) (hget.trans hname)]

/-- **Alike engines make the same spans.** -/
theorem Alike.highlight_eq (h : e.Alike e') (code name : String) :
    e'.highlight code name = e.highlight code name := by
  rw [highlight, highlight, rawTokens_eq, rawTokens_eq, h.lexer_eq]

theorem Alike.keepLexer (h : e.Alike e') (name : String) :
    (e.keepLexer name).Alike (e'.keepLexer name) where
  languages := by rw [languages_keepLexer, languages_keepLexer, h.languages]
  unambiguous := h.unambiguous.of_languages (languages_keepLexer e name)
  left := h.left.keepLexer name
  right := h.right.keepLexer name

/-- An engine is like each of two alike ones if it has their table. -/
theorem Alike.of_languages {e'' : Engine} (h : e.Alike e') (hsame : e''.languages = e'.languages)
    (hown : e''.KeepsOwn) : e.Alike e'' :=
  ⟨hsame.trans h.languages, h.unambiguous, h.left, hown⟩

end Engine

/-! ## Highlighting -/

namespace Highlighting

/-- Two stands of highlighting differ in the lexers that the engines have kept only. -/
structure Alike (h h' : Highlighting) : Prop where
  engine : h.engine.Alike h'.engine
  count : h'.count = h.count
  log : h'.log = h.log
  fault : h'.fault = h.fault

variable {h h' : Highlighting}

theorem Alike.highlight (ha : h.Alike h') (pre code : Tag) (children : List Node)
    (language : String) :
    (h.highlight pre code children language).1 = (h'.highlight pre code children language).1 ∧
      (h.highlight pre code children language).2.Alike
        (h'.highlight pre code children language).2 := by
  have hkeep := ha.engine.keepLexer language
  unfold Highlighting.highlight
  dsimp only
  rw [ha.engine.highlight_eq]
  cases h.engine.highlight (String.ofList (Node.textContents children)) language with
  | error fault => exact ⟨rfl, hkeep, ha.count, ha.log, rfl⟩
  | ok spans =>
    dsimp only
    cases elementOf (markup pre code spans) "pre" with
    | error fault => exact ⟨rfl, hkeep, ha.count, ha.log, rfl⟩
    | ok new => exact ⟨rfl, hkeep, congrArg (· + 1) ha.count, ha.log, ha.fault⟩

/-- Looking at an element gives the same, whichever lexers have been kept. -/
theorem visit_alike (isOld : Bool) : Html.Alike (visit isOld) (visit isOld) Alike := by
  rintro h h' ha ⟨parent, tag, children⟩
  simp only [PagePlace.replacement, PagePlace.answer]
  unfold visit
  cases parent with
  | none => exact ⟨rfl, ha⟩
  | some pre =>
    dsimp only
    rw [ha.fault]
    split
    · exact ⟨rfl, ha⟩
    · split
      · exact ⟨rfl, ha⟩
      · cases Marks.languageOf tag with
        | none => exact ⟨rfl, ha⟩
        | some language =>
          dsimp only
          rw [ha.engine.get?_eq]
          cases h.engine.get? language with
          | some g => exact ha.highlight pre tag children language
          | none =>
            dsimp only
            rw [ha.log]
            exact ⟨rfl, ha.engine, ha.count, rfl, rfl⟩

end Highlighting

/-- **Alike engines highlight a page alike,** and are alike afterwards. -/
theorem Html.Page.highlight_of_alike {e e' : Engine} (h : e.Alike e') (p : Page) :
    (p.highlight e).1 = (p.highlight e').1 ∧ (p.highlight e).2.Alike (p.highlight e').2 :=
  p.rewrite_of_alike (Highlighting.visit_alike p.isOld) ⟨h, rfl, rfl, rfl⟩

/-! ## Rendering -/

namespace Host

/-- Two hosts have alike engines, and the same abilities. -/
structure Alike (a b : Host) : Prop where
  engine : a.engine.Alike b.engine
  canRegister : b.canRegister = a.canRegister
  canHighlight : b.canHighlight = a.canHighlight

variable {a b : Host}

/-- Alike hosts highlight a page alike; the second stays like the first was. -/
theorem Alike.highlight (h : a.Alike b) (p : Page) :
    (Host.highlight p (some b)).1 = (Host.highlight p (some a)).1 ∧
      (Host.highlight p (some b)).2.1 = (Host.highlight p (some a)).2.1 ∧
      ∃ b', (Host.highlight p (some b)).2.2.1 = some b' ∧ a.Alike b' := by
  obtain ⟨hpage, hend⟩ := p.highlight_of_alike h.engine
  unfold Host.highlight
  dsimp only
  rw [h.canHighlight]
  split
  · refine ⟨hpage.symm, ?_, _, rfl, ?_, h.canRegister, rfl⟩
    · simp only [hend.fault, hend.count]
    · exact h.engine.of_languages (Highlighting.languages_highlight p b.engine) hend.engine.right
  · exact ⟨rfl, rfl, b, rfl, h⟩

/-- So do the last two stages. -/
theorem Alike.renderBlocks (h : a.Alike b) (p : Page) (config : HighlightConfig)
    (report : RenderReport) (log log' : Log) :
    (p.renderBlocks (some b) config report log').result =
        (p.renderBlocks (some a) config report log).result ∧
      (p.renderBlocks (some b) config report log').page =
        (p.renderBlocks (some a) config report log).page ∧
      ∃ b', (p.renderBlocks (some b) config report log').host = some b' ∧ a.Alike b' := by
  obtain ⟨hpage, hresult, b', hhost, halike⟩ := h.highlight p
  unfold Page.renderBlocks
  dsimp only
  rw [hresult, hpage]
  cases (Host.highlight p (some a)).2.1 with
  | error fault => exact ⟨rfl, rfl, b', hhost, halike⟩
  | ok blocks =>
    dsimp only
    cases ((Host.highlight p (some a)).1.addWantedButtons config).2 with
    | error fault => exact ⟨rfl, rfl, b', hhost, halike⟩
    | ok buttons => exact ⟨rfl, rfl, b', hhost, halike⟩

/-- Registering the definitions makes a host like another. -/
def BecomesLike (a b : Host) : Prop :=
  ∃ names b' log, Host.registerAll (some b) = (.ok names, some b', log) ∧ a.Alike b'

variable {a₀ b₀ : Host}

/-- Hosts that become alike render a page alike. -/
theorem BecomesLike.render (ha : a.BecomesLike a₀) (hb : a.BecomesLike b₀) (p : Page)
    (config : HighlightConfig) :
    (p.render (some b₀) config).result = (p.render (some a₀) config).result ∧
      (p.render (some b₀) config).page = (p.render (some a₀) config).page ∧
      ∃ b, (p.render (some b₀) config).host = some b ∧ a.Alike b := by
  obtain ⟨names, a₁, log, hregister, halike⟩ := ha
  obtain ⟨names', b₁, log', hregister', halike'⟩ := hb
  unfold Page.render
  rw [hregister, hregister']
  dsimp only
  cases p.classify.2.fault with
  | some fault => exact ⟨rfl, rfl, b₁, rfl, halike'⟩
  | none =>
    obtain ⟨hresult, hpage, b, hhost, hb⟩ := halike'.renderBlocks p.classify.1 config
      { filesScanned := 1, fragmentsClassified := p.classify.2.blocks.length,
        fragmentsSkipped := p.classify.1.fragmentCount } log log'
    obtain ⟨hresult', hpage', -⟩ := halike.renderBlocks p.classify.1 config
      { filesScanned := 1, fragmentsClassified := p.classify.2.blocks.length,
        fragmentsSkipped := p.classify.1.fragmentCount } log log
    exact ⟨hresult.trans hresult'.symm, hpage.trans hpage'.symm, b, hhost, hb⟩

/-- A host that has rendered a page becomes like what it became before. -/
theorem BecomesLike.of_render (hb : a.BecomesLike b₀) (p : Page) (config : HighlightConfig) :
    ∃ b, (p.render (some b₀) config).host = some b ∧ a.BecomesLike b := by
  obtain ⟨-, -, b, hhost, halike⟩ := hb.render hb p config
  obtain ⟨log, hregister⟩ := (Host.isRegistered_render p (some b₀) config).registerAll
  rw [hhost] at hregister
  exact ⟨b, hhost, [], b, log, hregister, halike⟩

/-- **Hosts that become alike render a text alike,** and still do so after any text. -/
theorem BecomesLike.renderText_eq (ha : a.BecomesLike a₀) (hb : a.BecomesLike b₀)
    (text : List Char) (config : HighlightConfig) :
    (renderText text (some b₀) config).result = (renderText text (some a₀) config).result ∧
      ∃ b, (renderText text (some b₀) config).host = some b ∧ a.BecomesLike b := by
  obtain ⟨hresult, hpage, -⟩ := ha.render hb (Page.read text) config
  refine ⟨?_, ?_⟩
  · unfold renderText
    dsimp only
    rw [hresult, hpage]
    split <;> rfl
  · rw [renderText_host]
    exact hb.of_render (Page.read text) config

end Host

/-! ## A fresh engine -/

/-- Registering comes to an end if the faults of the definitions say that something is missing. -/
theorem Engine.exists_registerAll {definitions : List Definition}
    (h : ∀ d ∈ definitions, ∀ e fault, d.build e = .error fault → fault.isLookup = true)
    (e : Engine) : ∃ names, (e.registerAll definitions).1 = .ok names := by
  induction definitions generalizing e with
  | nil => exact ⟨[], rfl⟩
  | cons d rest ih =>
    have ih := ih fun d' hd' => h d' (List.mem_cons_of_mem d hd')
    rw [registerAll]
    cases hregister : e.register d.name d.build with
    | ok answer =>
      obtain ⟨names, hnames⟩ := ih answer.2
      simp only [hnames, Except.map]
      exact ⟨_, rfl⟩
    | error fault =>
      have hbuild : d.build e = .error fault := by
        unfold register at hregister
        split at hregister
        · cases hregister
        · split at hregister
          · cases hregister
          · next hbuild => rw [hbuild, Except.error.inj hregister]
      simp only [h d List.mem_cons_self e fault hbuild, if_true]
      exact ih e

theorem Definition.isLookup_of_standard : ∀ d ∈ standard, ∀ e fault,
    d.build e = .error fault → fault.isLookup = true := by
  intro d hd e fault hbuild
  rcases List.mem_cons.1 hd with rfl | hd
  · cases hcmake : e.get? "cmake" with
    | none =>
      simp only [cmakeExt, hcmake] at hbuild
      rw [← Except.error.inj hbuild]
      rfl
    | some base => simp [cmakeExt, hcmake] at hbuild
  · obtain rfl := List.mem_singleton.1 hd
    cases hbuild

/-- A new engine with grammars under their own names becomes like itself with the definitions
registered. -/
theorem Host.exists_becomesLike {h : Host} (hnew : h.engine.IsNew) (hnames : h.engine.NamesOwn) :
    ∃ a : Host, a.BecomesLike h := by
  by_cases hcan : h.canRegister = true
  · obtain ⟨names, hresult⟩ :=
      h.engine.exists_registerAll Definition.isLookup_of_standard
    have hown := hnew.keepsOwn.registerAll Definition.standard
    have hsame := (hnames.registerAll Definition.standard_namesOwn).isUnambiguous hown.nodup
    refine ⟨{ h with engine := (h.engine.registerAll Definition.standard).2.1 }, names, _,
      (h.engine.registerAll Definition.standard).2.2, ?_, ⟨rfl, hsame, hown, hown⟩, rfl, rfl⟩
    rw [Host.registerAll, if_pos hcan]
    dsimp only
    rw [hresult]
  · have hown := hnew.keepsOwn
    refine ⟨h, [], h, [], ?_, ⟨rfl, hnames.isUnambiguous hown.nodup, hown, hown⟩, rfl, rfl⟩
    rw [Host.registerAll, if_neg hcan]

end DocHighlighter
