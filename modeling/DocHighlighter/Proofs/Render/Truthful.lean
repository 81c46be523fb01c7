/-
# Reports that tell the truth

A report counts what the stages went through.  It tells the truth (`Html.Page.TellsTruth`) if these
numbers are those of what stands on the page: the fragments that there were, the blocks in the
places of fragments, the highlighted blocks, and the blocks with a new button.

A stage goes through a list of elements that was made before it changes the page, so it counts what
it does inside an element that it has just exchanged, although that does not show.  The report tells
the truth exactly if this never happens (`Html.Page.tellsTruth_iff`), that is if everything counts
once (`Html.Page.CountsOnce`):

| stage | what counts | must not be |
|---|---|---|
| classify | a fragment with a known tag | the root, or around another fragment |
| highlight | a code in a language of the engine | in a `pre` with another one |
| copy buttons | a highlighted block without a button | around another one, or in a replaced root |

Not every page is like that (`Html.Page.not_forall_tellsTruth`).
-/

import DocHighlighter.Proofs.Block.Counted
import DocHighlighter.Proofs.Block.Kept
import DocHighlighter.Proofs.Render.Settled

namespace DocHighlighter

open Html

/-- The engine with the definitions registered. -/
def Engine.registered (e : Engine) : Engine :=
  (e.registerAll Definition.standard).2.1

namespace Html.Page

variable {p : Page} {e : Engine} {config : HighlightConfig} {report : RenderReport}

/-! ## What a report says -/

/-- The page after the first two stages. -/
def lit (p : Page) (e : Engine) : Page :=
  (p.classify.1.highlight e.registered).1

/-- **A report tells the truth** about a page: its numbers are those of what was on the page and of
what the stages have put on it. -/
structure TellsTruth (p : Page) (e : Engine) (config : HighlightConfig) (report : RenderReport) :
    Prop where
  fragments : report.fragmentsClassified + report.fragmentsSkipped = p.fragmentCount
  /-- The blocks are those that stand in the places of fragments, in the order of the page. -/
  blocks : p.classify.2.blocks.map Classification.elementFor =
    (p.puts (Classification.visit p.isOld) {}).map fun put => .ok put.2
  highlighted : report.blocksHighlighted =
    (p.classify.1.puts (Highlighting.visit p.isOld) { engine := e.registered }).length
  buttons : report.copyButtons =
    if (p.lit e).offersCopying config then
      ((p.lit e).puts (CopyButtons.visit p.isOld config.copyButtonTitle) {}).length else 0

/-- **Everything counts once:** no stage has anything to do inside an element that it exchanges. -/
structure CountsOnce (p : Page) (e : Engine) (config : HighlightConfig) : Prop where
  fragments : ∀ q ∈ p.root.places none, Classification.isBusy p.isOld q = true →
    q.parent ≠ none ∧ ∀ q' ∈ q.inside, q'.tag.selectsClass p.isOld Marks.fragment = false
  codes : ∀ q ∈ p.classify.1.root.places none,
    q.childPlaces.any (Highlighting.isBusy p.isOld e.registered) = true →
      q.inside.countP (Highlighting.isBusy p.isOld e.registered) ≤ 1
  buttons : (p.lit e).offersCopying config = true → ∀ q ∈ (p.lit e).root.places none,
    CopyButtons.isBusy p.isOld q = true →
      (p.lit e).shown = none ∧ ∀ q' ∈ q.inside, CopyButtons.isBusy p.isOld q' = false

theorem isOld_rewrite {σ : Type} (p : Page) (visit : Visit σ) (s : σ) :
    (p.rewrite visit s).1.isOld = p.isOld := by
  unfold rewrite
  split <;> rfl

theorem isOld_lit (p : Page) (e : Engine) : (p.lit e).isOld = p.isOld :=
  (isOld_rewrite ..).trans (isOld_rewrite ..)

/-- The blocks that a host counts are those that its engine has counted, without a fault. -/
theorem count_of_highlight {blocks : Nat}
    (h : (Host.highlight p (some { engine := e })).2.1 = .ok blocks) :
    (p.highlight e).2.fault = none ∧ blocks = (p.highlight e).2.count := by
  rw [Host.highlight, if_pos rfl] at h
  dsimp only at h
  split at h
  · cases h
  · next hfault => exact ⟨hfault, (Except.ok.inj h).symm⟩

/-- The buttons that are told are those that were added, without a fault, where they are wished. -/
theorem count_of_addWantedButtons {buttons : Nat}
    (h : (p.addWantedButtons config).2 = .ok buttons) :
    (p.offersCopying config = true → (p.addCopyButtons config.copyButtonTitle).2.fault = none) ∧
      (buttons : Int) = if p.offersCopying config then
        ((p.addCopyButtons config.copyButtonTitle).2.count : Int) else 0 := by
  unfold addWantedButtons at h
  split at h
  · next hoffers =>
    rw [if_pos hoffers]
    dsimp only at h
    split at h
    · cases h
    · next hfault => exact ⟨fun _ => hfault, congrArg _ (Except.ok.inj h).symm⟩
  · next hoffers =>
    rw [if_neg hoffers]
    exact ⟨fun h => absurd h hoffers, congrArg _ (Except.ok.inj h).symm⟩

/-- A report says what the stages have counted, and then nothing has gone wrong in any of them. -/
theorem render_engine_ok
    (h : (p.render (some { engine := e }) config).result = .ok report) :
    p.classify.2.fault = none ∧ (p.classify.1.highlight e.registered).2.fault = none ∧
      ((p.lit e).offersCopying config = true →
        ((p.lit e).addCopyButtons config.copyButtonTitle).2.fault = none) ∧
      report = {
        filesScanned := 1
        fragmentsClassified := p.classify.2.blocks.length
        fragmentsSkipped := p.classify.1.fragmentCount
        blocksHighlighted := (p.classify.1.highlight e.registered).2.count
        copyButtons := if (p.lit e).offersCopying config then
          ((p.lit e).addCopyButtons config.copyButtonTitle).2.count else 0 } := by
  cases hregister : Host.registerAll (some { engine := e }) with
  | mk result rest =>
    obtain ⟨host, log⟩ := rest
    have hengine : host = some { engine := e.registered } :=
      (congrArg (fun r => r.2.1) hregister).symm
    cases result with
    | error fault =>
      rw [render, hregister] at h
      cases h
    | ok names =>
      obtain ⟨hfault, hlast⟩ := (render_ok_iff hregister).1 h
      rw [hengine] at hlast
      obtain ⟨blocks, buttons, hblocks, hbuttons, rfl⟩ := renderBlocks_ok_iff.1 hlast
      obtain ⟨hlit, rfl⟩ := count_of_highlight hblocks
      obtain ⟨hadded, hcount⟩ := count_of_addWantedButtons hbuttons
      refine ⟨hfault, hlit, hadded, ?_⟩
      rw [hcount]
      rfl

/-! ## Fragments -/

theorem fragmentCount_eq (p : Page) : p.fragmentCount =
    (p.root.places none).countP fun q => q.tag.selectsClass p.isOld Marks.fragment := by
  rw [fragmentCount, select_eq_filter, List.length_map, List.countP_eq_length_filter]
  simp only [Fragment.selectsClass_fits]

/-- The root of a parsed page is an element. -/
theorem exists_root (text : List Char) :
    ∃ tag children, (Page.read text).root = .element tag children := by
  unfold read Builder.finish
  dsimp only
  split
  · exact ⟨_, _, rfl⟩
  · exact ⟨_, _, rfl⟩

/-- What classifying makes of a parsed page, whether or not its root is a fragment. -/
theorem exists_classify (text : List Char) :
    ∃ tag children, (Page.read text).root = .element tag children ∧
      (Page.read text).classify.1 =
        { Page.read text with
          root := .element tag (Node.substitutedAll
            (Classification.plain? (Page.read text).isOld) (some tag) children)
          shown := Classification.plain? (Page.read text).isOld ⟨none, tag, children⟩ } := by
  obtain ⟨tag, children, hroot⟩ := exists_root text
  refine ⟨tag, children, hroot, ?_⟩
  have hpage := (rewrite_root_of_substitutes
    (f := Classification.plain? (Page.read text).isOld) (s := ({} : Classification)) hroot (by rfl)
    fun q hq => Classification.substitutes_plain ((nulFree_read text).of_mem_places hq)).1
  rwa [shown_read, Option.none_or] at hpage

mutual

/-- Only the root has no element around it. -/
theorem parent_ne_none {tag : Tag} {q : PagePlace} : ∀ {n : Node},
    q ∈ n.places (some tag) → q.parent ≠ none
  | .text _, hq => absurd hq List.not_mem_nil
  | .comment _, hq => absurd hq List.not_mem_nil
  | .element _ _, hq => by
    rcases List.mem_cons.1 hq with rfl | hq
    · exact Option.some_ne_none tag
    · exact parent_ne_none_all hq

theorem parent_ne_none_all {tag : Tag} {q : PagePlace} : ∀ {ns : List Node},
    q ∈ Node.placesAll (some tag) ns → q.parent ≠ none
  | [], hq => absurd hq List.not_mem_nil
  | _ :: _, hq => (List.mem_append.1 hq).elim parent_ne_none parent_ne_none_all

end

variable (text : List Char)

/-- The blocks that are found are those that stand on the page exactly if no fragment with a known
tag is inside another one. -/
theorem map_elementFor_blocks_iff :
    (Page.read text).classify.2.blocks.map Classification.elementFor =
        ((Page.read text).puts (Classification.visit (Page.read text).isOld) {}).map
          (fun put => .ok put.2) ↔
      ∀ q ∈ (Page.read text).root.places none,
        Classification.isBusy (Page.read text).isOld q = true →
          ∀ q' ∈ q.inside, Classification.isBusy (Page.read text).isOld q' = false := by
  have hfree : ∀ q ∈ (Page.read text).root.places none, q.node.NulFree :=
    fun q hq => (nulFree_read text).of_mem_places hq
  have hshown := shown_read text
  have hend : (Page.read text).classify.2.fault = none := by rw [classify_snd]
  constructor
  · intro h
    have hlength := congrArg List.length h
    rw [List.length_map, List.length_map] at hlength
    have hcount := ((Classification.counts (Page.read text).isOld).count_eq_length_puts_iff
      trivial rfl hend).1 hlength
    exact fun q hq hbusy => (hcount q hq hbusy).2
  · intro h
    rw [classify_snd, puts, hshown]
    dsimp only
    rw [puts_of_substitutes (Page.read text).root (by rfl)
      fun q hq => Classification.substitutes_plain (hfree q hq)]
    simp only [Classification.isSome_plain?]
    rw [(Node.outermost_eq_filter_iff _ none _).2 h, List.map_filterMap, List.map_filterMap,
      List.filterMap_filter]
    refine List.filterMap_congr fun q hq => ?_
    rw [Classification.map_elementFor (hfree q hq), Option.map_map]
    split
    · rfl
    · next hidle =>
      rw [← Classification.isSome_plain?, Bool.not_eq_true, Option.isSome_eq_false_iff,
        Option.isNone_iff_eq_none] at hidle
      rw [hidle]
      rfl

/-- **The fragments are told truly** exactly if the root is no fragment with a known tag, and no
fragment is inside one. -/
theorem fragments_truly_iff :
    ((Page.read text).classify.2.blocks.length + (Page.read text).classify.1.fragmentCount =
          (Page.read text).fragmentCount ∧
        (Page.read text).classify.2.blocks.map Classification.elementFor =
          ((Page.read text).puts (Classification.visit (Page.read text).isOld) {}).map
            (fun put => .ok put.2)) ↔
      ∀ q ∈ (Page.read text).root.places none,
        Classification.isBusy (Page.read text).isOld q = true →
          q.parent ≠ none ∧
            ∀ q' ∈ q.inside, q'.tag.selectsClass (Page.read text).isOld Marks.fragment = false := by
  rw [map_elementFor_blocks_iff]
  obtain ⟨tag, children, hroot, hpage⟩ := exists_classify text
  have hblocks : (Page.read text).classify.2.blocks.length =
      ((Page.read text).root.places none).countP
        (Classification.isBusy (Page.read text).isOld) := by
    rw [classify_snd, List.length_filterMap_eq_countP]
    rfl
  have hiff := Classification.countP_isBusy_iff (Page.read text).isOld none (Page.read text).root
  rw [hblocks, fragmentCount_eq, fragmentCount_eq, hpage]
  dsimp only
  rw [hroot] at hiff ⊢
  cases hbusy : Classification.plain? (Page.read text).isOld ⟨none, tag, children⟩ with
  | none =>
    rw [Node.substituted_of_none hbusy] at hiff
    rw [hiff]
    refine forall₂_congr fun q hq => imp_congr_right fun hq' =>
      (and_iff_right fun hparent => ?_).symm
    rcases List.mem_cons.1 hq with rfl | hq
    · rw [← Classification.isSome_plain?, hbusy] at hq'
      cases hq'
    · exact parent_ne_none_all hq hparent
  | some new =>
    -- the root stays among the fragments that are left, so it is counted twice
    have hhere : Classification.isBusy (Page.read text).isOld ⟨none, tag, children⟩ = true := by
      rw [← Classification.isSome_plain?, hbusy, Option.isSome_some]
    have htag : tag.selectsClass (Page.read text).isOld Marks.fragment = true :=
      Classification.selectsClass_of_isBusy hhere
    refine ⟨fun ⟨hsum, hnone⟩ => ?_, fun h => absurd rfl (h _ List.mem_cons_self hhere).1⟩
    have hinside := hnone _ List.mem_cons_self hhere
    have hidle : (Node.placesAll (some tag) children).countP
        (Classification.isBusy (Page.read text).isOld) = 0 :=
      List.countP_eq_zero.2 fun q hq => by simpa using hinside q hq
    have hrest := Classification.countP_of_idle (Page.read text).isOld (some tag) hinside
    simp only [Node.places, List.countP_cons, hhere, htag, hidle, hrest, if_true] at hsum
    omega

/-! ## All of it -/

/-- **A report tells the truth exactly if everything counts once.**  This is so for every page that
is parsed, every engine and all settings with which the page is rendered. -/
theorem tellsTruth_iff (e : Engine) (config : HighlightConfig) {report : RenderReport}
    (hrender : ((Page.read text).render (some { engine := e }) config).result = .ok report) :
    (Page.read text).TellsTruth e config report ↔ (Page.read text).CountsOnce e config := by
  obtain ⟨-, hlit, hbuttons, rfl⟩ := render_engine_ok hrender
  have hfragments := fragments_truly_iff text
  have hshown : (∀ q ∈ (Page.read text).root.places none,
        Classification.isBusy (Page.read text).isOld q = true →
          q.parent ≠ none ∧
            ∀ q' ∈ q.inside, q'.tag.selectsClass (Page.read text).isOld Marks.fragment = false) →
      (Page.read text).classify.1.shown = none := by
    intro h
    obtain ⟨tag, children, hroot, hpage⟩ := exists_classify text
    rw [hpage, ← Option.isNone_iff_eq_none, ← Option.isSome_eq_false_iff,
      Classification.isSome_plain?, Bool.eq_false_iff]
    exact fun hbusy => absurd rfl (h _ (by rw [hroot]; exact List.mem_cons_self) hbusy).1
  have hcodes : (Page.read text).classify.1.shown = none →
      (((Page.read text).classify.1.highlight e.registered).2.count =
          ((Page.read text).classify.1.puts (Highlighting.visit (Page.read text).isOld)
            { engine := e.registered }).length ↔
        ∀ q ∈ (Page.read text).classify.1.root.places none,
          q.childPlaces.any (Highlighting.isBusy (Page.read text).isOld e.registered) = true →
            q.inside.countP (Highlighting.isBusy (Page.read text).isOld e.registered) ≤ 1) := by
    intro hnone
    have hold : (Page.read text).classify.1.isOld = (Page.read text).isOld := isOld_rewrite ..
    rw [highlight, hold] at hlit ⊢
    exact (Highlighting.counts (Page.read text).isOld e.registered).count_eq_length_puts_around_iff
      rfl rfl hlit hnone fun p hp => by simp [Highlighting.isBusy, hp]
  have hadded : ((Page.read text).lit e).offersCopying config = true →
      ((((Page.read text).lit e).addCopyButtons config.copyButtonTitle).2.count =
          (((Page.read text).lit e).puts
            (CopyButtons.visit (Page.read text).isOld config.copyButtonTitle) {}).length ↔
        ∀ q ∈ ((Page.read text).lit e).root.places none,
          CopyButtons.isBusy (Page.read text).isOld q = true →
            ((Page.read text).lit e).shown = none ∧
              ∀ q' ∈ q.inside, CopyButtons.isBusy (Page.read text).isOld q' = false) := by
    intro hoffers
    have hfault := hbuttons hoffers
    rw [addCopyButtons, isOld_lit] at hfault ⊢
    exact (CopyButtons.counts _ _).count_eq_length_puts_iff trivial rfl hfault
  constructor
  · rintro ⟨hsum, hblocks, hhighlighted, hcopied⟩
    dsimp only at hsum hhighlighted hcopied
    have hfirst := hfragments.1 ⟨by exact_mod_cast hsum, hblocks⟩
    refine ⟨hfirst, (hcodes (hshown hfirst)).1 (by exact_mod_cast hhighlighted), fun hoffers => ?_⟩
    rw [if_pos hoffers, if_pos hoffers] at hcopied
    exact (hadded hoffers).1 (by exact_mod_cast hcopied)
  · rintro ⟨hfirst, honce, hapart⟩
    obtain ⟨hsum, hblocks⟩ := hfragments.2 hfirst
    have hhighlighted := (hcodes (hshown hfirst)).2 honce
    refine ⟨?_, hblocks, ?_, ?_⟩
    · dsimp only
      exact_mod_cast hsum
    · dsimp only
      exact_mod_cast hhighlighted
    · dsimp only
      by_cases hoffers : ((Page.read text).lit e).offersCopying config = true
      · rw [if_pos hoffers, if_pos hoffers]
        exact_mod_cast (hadded hoffers).2 (hapart hoffers)
      · rw [if_neg hoffers, if_neg hoffers]
        rfl

/-- A page with a fragment and a highlighted block, side by side. -/
def fragmentAndBlock : List Char :=
  ("<!DOCTYPE html><script src=\"fragment-copy-button.js\"></script>" ++
    "<div class=\"fragment\"><div class=\"line\">@json</div></div>" ++
    "<pre class=\"highlight\">a</pre>").toList

/-- The report on it tells the truth. -/
theorem tellsTruth_fragmentAndBlock :
    ((read fragmentAndBlock).render (some { engine := { languages := [] } }) {}).result =
        .ok { filesScanned := 1, fragmentsClassified := 1, copyButtons := 1 } ∧
      (read fragmentAndBlock).TellsTruth { languages := [] } {}
        { filesScanned := 1, fragmentsClassified := 1, copyButtons := 1 } := by
  have hrender : ((read fragmentAndBlock).render (some { engine := { languages := [] } })
      {}).result.toOption =
        some { filesScanned := 1, fragmentsClassified := 1, copyButtons := 1 } := by
    unfold fragmentAndBlock
    simp only [String.toList_append]
    repeat rw [String.toList_ofList]
    decide +kernel
  have honce : (read fragmentAndBlock).CountsOnce { languages := [] } {} := by
    unfold fragmentAndBlock
    simp only [String.toList_append]
    repeat rw [String.toList_ofList]
    exact ⟨by decide +kernel, by decide +kernel, by decide +kernel⟩
  have hok := eq_ok_of_toOption hrender
  exact ⟨hok, (tellsTruth_iff fragmentAndBlock { languages := [] } {} hok).2 honce⟩

/-- A page with a fragment inside another one, both with known tags. -/
def fragmentInFragment : List Char :=
  ("<!DOCTYPE html><div class=\"fragment\"><div class=\"line\">@json</div>" ++
    "<div class=\"fragment\"><div class=\"line\">@idl</div></div></div>").toList

/-- **Not every report tells the truth:** a fragment inside another one is told to be a block,
although only the block of the outer one stands on the page. -/
theorem not_forall_tellsTruth : ¬ ∀ (text : List Char) (e : Engine) (config : HighlightConfig)
    (report : RenderReport),
    ((read text).render (some { engine := e }) config).result = .ok report →
      (read text).TellsTruth e config report := by
  intro h
  have hrender : ((read fragmentInFragment).render (some { engine := { languages := [] } })
      {}).result.toOption = some { filesScanned := 1, fragmentsClassified := 2 } := by
    unfold fragmentInFragment
    simp only [String.toList_append]
    repeat rw [String.toList_ofList]
    decide +kernel
  have hcounts : (read fragmentInFragment).classify.2.blocks.length = 2 ∧
      ((read fragmentInFragment).puts
        (Classification.visit (read fragmentInFragment).isOld) {}).length = 1 := by
    unfold fragmentInFragment
    simp only [String.toList_append]
    repeat rw [String.toList_ofList]
    decide +kernel
  have hlength := congrArg List.length (h _ _ _ _ (eq_ok_of_toOption hrender)).blocks
  rw [List.length_map, List.length_map, hcounts.1, hcounts.2] at hlength
  exact absurd hlength (by decide)

end Html.Page
end DocHighlighter
