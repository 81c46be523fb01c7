/-
# When rendering a page ends well

Rendering stops at the first stage that goes wrong.  Of the four stages only one can: highlighting,
where a lexer gives no tokens for the text of a code (`Html.Page.exists_render_iff`).

| stage | why it ends well |
|---|---|
| registering | a definition that lacks something is passed over |
| classifying | the markup of a code block reads as its element |
| highlighting | each code is lexed, or it does not |
| copy buttons | the wrapper is opened before what is in it is read, and stays on the page |

The last of them holds for any block, however its markup is read: an element that has been opened
is not lost (`Html.Builder.Lasts`).

So an engine whose grammars all compile, and whose lexers give tokens for every text
(`Engine.LexesAll`), renders every text, and goes on to do so (`Host.LexesAll.renderText`).  The
engine with the built-in languages is one (`Host.lexesAll_builtins`).
-/

import DocHighlighter.Proofs.Block.Classified
import DocHighlighter.Proofs.Block.Ends
import DocHighlighter.Proofs.Grammar.Keywords
import DocHighlighter.Proofs.Html.Lasting
import DocHighlighter.Proofs.Lexer.ReadyMade
import DocHighlighter.Proofs.Render.Alike
import DocHighlighter.Proofs.Render.Buttons

namespace DocHighlighter

open Html
open Fragment (wrapperTag)

/-! ## Copy buttons -/

namespace CopyButtons

/-- The tag of a wrapper, maybe with more attributes. -/
def wrapperTrait : Trait where
  holds t := ∃ more, t = { wrapperTag with attributes := wrapperTag.attributes ++ more }
  more attributes h := by
    obtain ⟨more, rfl⟩ := h
    exact ⟨more ++ attributes, by simp⟩

/-- Where a wrapper has been opened it lasts. -/
theorem lasts_wrapper : (Builder.snippetBody.opened wrapperTag).Lasts wrapperTrait := by
  refine Builder.BehindHead.lasts ⟨⟨⟨⟨by decide, by decide⟩, fun _ => ?_⟩, by decide⟩, rfl⟩
  exact ⟨_, List.mem_cons_self, .here ⟨[], rfl⟩⟩

/-- The markup of a block with its button reads as a page with a wrapper, whatever the block is. -/
theorem has_wrapper (title : String) (pre : Node) :
    (Page.read (markup title pre)).root.Has wrapperTrait := by
  have hfits := Builder.fits_start.run (Text.unifyNewlines (markup title pre))
  have hlasts : (({} : Builder).run (Text.unifyNewlines (markup title pre))).Lasts
      wrapperTrait := by
    rw [CodeBlock.copyButtons_markup_eq, CodeBlock.unifyNewlines_wrappedText, Builder.run_wrapper]
    exact lasts_wrapper.run _
  exact hlasts.finish hfits

theorem wrapper_fits_of_holds {tag : Tag} (h : wrapperTrait.holds tag) (isOld : Bool)
    (parent : Option Tag) : (Selector.read wrapperSelector).fits isOld parent tag = true := by
  obtain ⟨more, rfl⟩ := h
  rw [wrapper_fits]
  cases isOld <;> rfl

/-- **The wrapper of a block is found in its markup,** whatever the block is. -/
theorem exists_elementOf (title : String) (pre : Node) :
    ∃ new, elementOf (markup title pre) wrapperSelector = .ok new := by
  obtain ⟨q, hq, hwrapper⟩ := (has_wrapper title pre).exists_place none
  rw [elementOf]
  split
  · exact ⟨_, rfl⟩
  · next hnone =>
    rw [List.head?_eq_none_iff, Page.select_eq_filter, List.map_eq_nil_iff,
      List.filter_eq_nil_iff] at hnone
    exact absurd (wrapper_fits_of_holds hwrapper _ _) (hnone q hq)

theorem fault_visit {isOld : Bool} {title : String} (c : CopyButtons) (q : PagePlace)
    (hc : c.fault = none) : (q.answer (visit isOld title) c).fault = none := by
  obtain ⟨new, hnew⟩ := exists_elementOf title (.element q.tag q.children)
  unfold PagePlace.answer visit
  split
  · exact hc
  · split
    · exact hc
    · rw [hnew]
      exact hc

end CopyButtons

namespace Html

/-- Adding copy buttons ends well. -/
theorem Page.exists_addWantedButtons (p : Page) (config : HighlightConfig) :
    ∃ buttons, (p.addWantedButtons config).2 = .ok buttons := by
  have hfault : (p.addCopyButtons config.copyButtonTitle).2.fault = none := by
    rw [addCopyButtons, rewrite_answers]
    exact good_foldl CopyButtons.fault_visit _ rfl
  unfold addWantedButtons
  split
  · simp only [hfault]
    exact ⟨_, rfl⟩
  · exact ⟨_, rfl⟩

/-! ## Classified pages -/

variable {f : PagePlace → Option Node}

mutual

/-- What has no U+0000 has none when elements give place to what has none. -/
theorem Node.NulFree.substituted (hf : ∀ q new, f q = some new → new.NulFree)
    {parent : Option Tag} : ∀ {n : Node}, n.NulFree → (n.substituted f parent).NulFree
  | .text _, h => h
  | .comment _, h => h
  | .element tag children, h => by
    obtain ⟨htag, hchildren⟩ := h.of_element
    cases hnew : f ⟨parent, tag, children⟩ with
    | some new => exact Node.substituted_of_some hnew ▸ hf _ new hnew
    | none =>
      rw [Node.substituted_of_none hnew]
      exact .element htag (Node.NulFree.substitutedAll hf hchildren)

theorem Node.NulFree.substitutedAll (hf : ∀ q new, f q = some new → new.NulFree)
    {parent : Option Tag} : ∀ {ns : List Node}, (∀ n ∈ ns, n.NulFree) →
      ∀ n ∈ Node.substitutedAll f parent ns, n.NulFree
  | [], _ => List.forall_mem_nil _
  | _ :: _, h => by
    obtain ⟨hn, hrest⟩ := List.forall_mem_cons.1 h
    exact List.forall_mem_cons.2
      ⟨Node.NulFree.substituted hf hn, Node.NulFree.substitutedAll hf hrest⟩

end

/-- What is read from a snippet has no U+0000. -/
theorem Node.nulFree_elementOf {markup : List Char} {selector : String} {n : Node}
    (h : elementOf markup selector = .ok n) : n.NulFree := by
  obtain ⟨q, hq, rfl⟩ := exists_place_of_elementOf h
  exact (Page.nulFree_read markup).of_mem_places hq

theorem Classification.nulFree_substitute {isOld : Bool} (q : PagePlace) (new : Node)
    (h : Classification.substitute? isOld q = some new) : new.NulFree := by
  obtain ⟨b, -, hnew⟩ := Option.bind_eq_some_iff.1 h
  cases helement : Classification.elementFor b with
  | error fault => simp [helement, Except.toOption] at hnew
  | ok new' =>
    rw [helement, Except.toOption] at hnew
    exact Option.some.inj hnew ▸ Node.nulFree_elementOf helement

namespace Page

/-- A parsed page has no U+0000 when its fragments have been classified. -/
theorem nulFree_classify (text : List Char) : (read text).classify.1.root.NulFree := by
  obtain ⟨tag, children, hroot, -⟩ := exists_root_read text
  have hfree := nulFree_read text
  obtain ⟨hpage, -⟩ := rewrite_root_of_substitutes (s := ({} : Classification)) hroot (by rfl)
    fun q hq => Classification.substitutes (hfree.of_mem_places hq)
  rw [hroot] at hfree
  rw [classify, hpage]
  exact .element hfree.of_element.1
    (Node.NulFree.substitutedAll Classification.nulFree_substitute hfree.of_element.2)

end Page
end Html

/-! ## All stages -/

variable {host host₁ : Option Host} {names : List String} {log : Log}

/-- Registering ends well. -/
theorem Host.exists_registerAll (host : Option Host) :
    ∃ names host₁ log, Host.registerAll host = (.ok names, host₁, log) := by
  cases host with
  | none => exact ⟨[], none, [], rfl⟩
  | some h =>
    obtain ⟨names, hnames⟩ := h.engine.exists_registerAll Definition.isLookup_of_standard
    by_cases hcan : h.canRegister = true
    · refine ⟨names, some { h with engine := (h.engine.registerAll Definition.standard).2.1 },
        (h.engine.registerAll Definition.standard).2.2, ?_⟩
      rw [registerAll, if_pos hcan, ← hnames]
    · exact ⟨[], some h, [], by rw [registerAll, if_neg hcan]⟩

/-- Highlighting ends well where each code is lexed. -/
theorem Host.exists_highlight_iff {p : Page} (hfree : p.root.NulFree) :
    (∃ blocks, (Host.highlight p host).2.1 = .ok blocks) ↔
      ∀ h ∈ host, h.canHighlight = true → p.LexesEveryBlock h.engine := by
  cases host with
  | none => simp [Host.highlight]
  | some h =>
    simp only [Option.mem_some_iff, forall_eq', ← Page.fault_highlight_eq_none_iff hfree]
    cases hcan : h.canHighlight with
    | false => simp [Host.highlight, hcan]
    | true => cases hfault : (p.highlight h.engine).2.fault <;> simp [Host.highlight, hcan, hfault]

/-- **Rendering a page ends well exactly if each code is lexed** when its turn comes, by the engine
with the definitions registered, or if there is no engine that can highlight. -/
theorem Html.Page.exists_render_iff (hregister : Host.registerAll host = (.ok names, host₁, log))
    (text : List Char) (config : HighlightConfig) :
    (∃ report, ((Page.read text).render host config).result = .ok report) ↔
      ∀ h ∈ host₁, h.canHighlight = true →
        (Page.read text).classify.1.LexesEveryBlock h.engine := by
  rw [← Host.exists_highlight_iff (nulFree_classify text)]
  have hfound : (Page.read text).classify.2.fault = none := by rw [classify_snd]
  simp only [render_ok_iff hregister, renderBlocks_ok_iff, hfound, true_and]
  constructor
  · rintro ⟨report, blocks, buttons, hblocks, -, -⟩
    exact ⟨blocks, hblocks⟩
  · rintro ⟨blocks, hblocks⟩
    obtain ⟨buttons, hbuttons⟩ :=
      (Host.highlight (Page.read text).classify.1 host₁).1.exists_addWantedButtons config
    exact ⟨_, blocks, buttons, hblocks, hbuttons, rfl⟩

/-! ## Engines that lex every text -/

/-- Every grammar can be compiled, and every lexer that is kept or made gives tokens for every
text. -/
structure Engine.LexesAll (e : Engine) : Prop where
  grammars : ∀ k ∈ e.languages, ∃ l, k.2.compile = .ok l ∧ ∀ text, ∃ tokens,
    l.tokens text = .ok tokens
  lexers : ∀ k ∈ e.lexers, ∀ text, ∃ tokens, k.2.tokens text = .ok tokens

namespace Engine.LexesAll

variable {e : Engine} (h : e.LexesAll)

include h

theorem keepLexer (name : String) : (e.keepLexer name).LexesAll := by
  obtain hsame | ⟨k, hk, l, hcompile, hnew⟩ := keepLexer_cases e name
  · rwa [hsame]
  · rw [hnew]
    obtain ⟨l', hcompile', htokens⟩ := h.grammars k hk
    obtain rfl := Except.ok.inj (hcompile'.symm.trans hcompile)
    exact ⟨h.grammars, List.forall_mem_cons.2 ⟨htokens, h.lexers⟩⟩

/-- Each code of a page is lexed. -/
theorem lexesEveryBlock (p : Page) : p.LexesEveryBlock e := by
  refine p.lexesEveryBlock_of_tokens (fun name g hg => ?_) fun l hl code => ?_
  · obtain ⟨k, hk, rfl⟩ := exists_mem_of_get? hg
    obtain ⟨l, hcompile, -⟩ := h.grammars k hk
    exact ⟨l, hcompile⟩
  · obtain ⟨k, hk, rfl⟩ | ⟨k, hk, hcompile⟩ := hl
    · exact h.lexers k hk _
    · obtain ⟨l', hcompile', htokens⟩ := h.grammars k hk
      obtain rfl := Except.ok.inj (hcompile'.symm.trans hcompile)
      exact htokens _

/-- When a page has been highlighted, the engine still lexes every text. -/
theorem highlight (p : Page) : (p.highlight e).2.engine.LexesAll := by
  have hkeeps : ∀ (lit : Highlighting) (q : PagePlace), lit.engine.LexesAll →
      (q.answer (Highlighting.visit p.isOld) lit).engine.LexesAll := by
    intro lit q hlit
    obtain hsame | ⟨name, hkept⟩ := Highlighting.engine_visit p.isOld lit q
    · rwa [hsame]
    · rw [hkept]
      exact hlit.keepLexer name
  rw [Page.highlight_eq_litBefore, Page.litBefore]
  exact good_foldl hkeeps _ h

end Engine.LexesAll

namespace Host

/-- The engine, if it can highlight, lexes every text. -/
def LexesAll (host : Option Host) : Prop :=
  ∀ h ∈ host, h.canHighlight = true → h.engine.LexesAll

theorem LexesAll.highlight (h : LexesAll host) (p : Page) :
    LexesAll (Host.highlight p host).2.2.1 := by
  cases host with
  | none => exact h
  | some a =>
    cases hcan : a.canHighlight with
    | false => simpa [Host.highlight, hcan] using h
    | true =>
      intro b hb _
      simp only [Host.highlight, hcan, if_true, Option.mem_def, Option.some.injEq] at hb
      obtain rfl := hb
      exact (h a rfl hcan).highlight p

/-- Rendering a page leaves an engine that lexes every text. -/
theorem LexesAll.render (h : LexesAll (Host.registerAll host).2.1) (p : Page)
    (config : HighlightConfig) : LexesAll (p.render host config).host := by
  unfold Page.render Page.renderBlocks
  dsimp only
  split
  · exact h
  · split
    · exact h
    · split
      · exact h.highlight _
      · split <;> exact h.highlight _

end Host

/-- **An engine that lexes every text renders every text,** and goes on to do so. -/
theorem renderText_of_lexesAll (h : Host.LexesAll (Host.registerAll host).2.1) (text : List Char)
    (config : HighlightConfig) :
    (∃ answer, (renderText text host config).result = .ok answer) ∧
      Host.LexesAll (Host.registerAll (renderText text host config).host).2.1 := by
  constructor
  · obtain ⟨names, host₁, log, hregister⟩ := Host.exists_registerAll host
    rw [hregister] at h
    obtain ⟨report, hreport⟩ := (Page.exists_render_iff hregister text config).2
      fun e he hcan => (h e he hcan).lexesEveryBlock _
    exact ⟨_, renderText_ok_iff.2 ⟨hreport, rfl⟩⟩
  · rw [renderText_host]
    obtain ⟨log, hagain⟩ := (Host.isRegistered_render (Page.read text) host config).registerAll
    rw [hagain]
    exact h.render (Page.read text) config

/-! ## The built-in languages -/

theorem ReadyMade.exists_tokens (r : ReadyMade) (text : List Char) :
    ∃ tokens, r.lexer.tokens text = .ok tokens := by
  obtain ⟨ps, hps⟩ := r.exists_placedTokens text
  exact ⟨_, by rw [Lexer.tokens_eq, hps]; rfl⟩

namespace Language

/-- The lexer of CMake gives tokens for every text. -/
theorem exists_lexer_cmake : ∃ l, (ofReadyMade .cmake).compile = .ok l ∧
    ∀ text, ∃ tokens, l.tokens text = .ok tokens := by
  have hcompile : (ofReadyMade .cmake).compile = .ok (if (ofReadyMade .cmake).keywords.isEmpty
      then Lexer.cmake else (ofReadyMade .cmake).keywordLexer Lexer.cmake) := rfl
  have hbody : ((ofReadyMade .cmake).keywordLexer Lexer.cmake).body = Lexer.cmake.body := rfl
  refine ⟨_, hcompile, fun text => ?_⟩
  obtain ⟨tokens, htokens⟩ := ReadyMade.cmake.exists_tokens text
  split
  · exact ⟨tokens, htokens⟩
  · obtain ⟨tokens', htokens', -⟩ := Grammar.tokens_keywordLexer hbody htokens
    exact ⟨tokens', htokens'⟩

/-- So do those of the languages that tags of fragments name. -/
theorem exists_lexer_tagged {k : String × Grammar} (hk : k ∈ tagged) :
    ∃ l, k.2.compile = .ok l ∧ ∀ text, ∃ tokens, l.tokens text = .ok tokens := by
  obtain ⟨l, hcompile, hl⟩ := exists_lexer hk
  refine ⟨l, hcompile, fun text => ?_⟩
  obtain ⟨hown, hbase⟩ := hl text
  cases hlexer : k.2.lexer with
  | none =>
    obtain ⟨tokens, htokens, -⟩ := hown hlexer
    exact ⟨tokens, htokens⟩
  | some r =>
    obtain ⟨tokens, htokens⟩ := r.exists_tokens text
    obtain ⟨tokens', htokens', -⟩ := hbase r hlexer tokens htokens
    exact ⟨tokens', htokens'⟩

end Language

/-- **The engine with the built-in languages lexes every text,** once the definitions are
registered. -/
theorem Host.lexesAll_builtins (style : String) : Host.LexesAll (Host.registerAll
    (some { engine := { languages := Language.builtins, style := style } })).2.1 := by
  have hregistered : (({ languages := Language.builtins, style := style } : Engine).registerAll
      Definition.standard).2.1 = { languages := Language.builtins ++
        [("cmake-ext", Language.cmakeExt), ("idl", Language.Idl.grammar)], style := style } := rfl
  intro h hh _
  simp only [Host.registerAll, hregistered, if_true, Option.mem_def, Option.some.injEq] at hh
  obtain rfl := hh
  refine ⟨fun k hk => ?_, List.forall_mem_nil _⟩
  rcases List.mem_append.1 hk with hbuiltin | hdefined
  · rcases List.mem_cons.1 hbuiltin with rfl | hbuiltin
    · exact Language.exists_lexer_cmake
    · exact Language.exists_lexer_tagged (List.mem_append_right _ hbuiltin)
  · exact Language.exists_lexer_tagged (List.mem_append_left _ hdefined)

end DocHighlighter
