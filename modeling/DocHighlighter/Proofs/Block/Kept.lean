/-
# What highlighting keeps of a block

A block that is highlighted is exchanged for a new `pre`, which has the classes of the old
one and one `code` with the classes and the text of the code that was highlighted
(`PagePlace.IsHighlightedAs`).  What else the old block has is not in the new one:
other attributes, text and elements beside the code, further codes.

So a block is kept (`PagePlace.IsKeptIn`) exactly if it has nothing else
(`PagePlace.HoldsCodeOnly`), and whatever is not exchanged stays as it is
(`Page.highlight_keeps_iff`).  Not every block holds its code only: the text around a code is lost
(`not_forall_isKeptIn`).
-/

import DocHighlighter.Proofs.Engine.Coherent
import DocHighlighter.Proofs.Highlight.Lossless
import DocHighlighter.Proofs.Html.Exchanged
import DocHighlighter.Proofs.Html.Sound
import DocHighlighter.Proofs.Text.Fields
import DocHighlighter.Proofs.Text.Newlines

namespace DocHighlighter

open Html
open Spans (IsPlainChar)

/-! ## Classes -/

namespace Highlighting

theorem mem_joined {classes : List String} {c : Char} (h : c ∈ joined classes) :
    c = ' ' ∨ ∃ name ∈ classes, c ∈ name.toList := by
  induction classes with
  | nil => exact absurd h List.not_mem_nil
  | cons name rest ih =>
    by_cases hrest : rest = []
    · subst hrest
      exact .inr ⟨name, List.mem_cons_self, h⟩
    · rw [joined_cons name hrest, List.mem_append, List.mem_cons] at h
      rcases h with h | h | h
      · exact .inr ⟨name, List.mem_cons_self, h⟩
      · exact .inl h
      · obtain hspace | ⟨name', hname', hc⟩ := ih h
        · exact .inl hspace
        · exact .inr ⟨name', List.mem_cons_of_mem _ hname', hc⟩

theorem isPlainChar_joined {classes : List String}
    (h : ∀ name ∈ classes, ∀ c ∈ name.toList, IsPlainChar c) :
    ∀ c ∈ joined classes, IsPlainChar c := by
  intro c hc
  obtain rfl | ⟨name, hname, hmem⟩ := mem_joined hc
  · simp [IsPlainChar]
  · exact h name hname c hmem

end Highlighting

/-- The classes of a tag without U+0000 have no character that pages treat specially. -/
theorem Html.Tag.isPlainChar_classes {t : Tag} (h : t.NulFree) :
    ∀ name ∈ t.classes, ∀ c ∈ name.toList, IsPlainChar c := by
  intro name hname c hc
  obtain ⟨field, hfield, rfl⟩ := List.mem_map.1 hname
  rw [String.toList_ofList] at hc
  obtain ⟨hmem, hblank⟩ := Text.mem_of_mem_fields hfield c hc
  refine ⟨?_, ?_⟩
  · rintro rfl
    unfold attribute? at hmem
    cases hfound : t.attributes.find? (·.name == "class") with
    | none => simp [hfound] at hmem
    | some a =>
      rw [hfound] at hmem
      exact h a (List.mem_of_find?_eq_some hfound) hmem
  · rintro rfl
    exact absurd hblank (by decide)

/-! ## The text that is shown -/

/-- Once its newlines are alike, a text without U+0000 has no character that pages treat
specially. -/
theorem Text.isPlainChar_unifyNewlines {text : List Char} (h : '\x00' ∉ text) :
    ∀ c ∈ Text.unifyNewlines (withoutMark text), IsPlainChar c := by
  intro c hc
  obtain ⟨hreturn, hmem⟩ := mem_of_mem_unifyNewlines hc
  refine ⟨?_, hreturn⟩
  rintro rfl
  rcases hmem with hmem | hmem
  · exact h (mem_of_mem_withoutMark hmem)
  · exact absurd hmem (by decide)

/-- What is shown of a text without U+0000 has no character that pages treat specially. -/
theorem Text.isPlainChar_shown {text : List Char} (h : '\x00' ∉ text) :
    ∀ c ∈ Text.shown text, IsPlainChar c :=
  fun c hc => isPlainChar_unifyNewlines h c (mem_of_mem_stripEnd hc)

/-! ## Lexers -/

namespace Engine

variable {e e' : Engine} {l : Lexer}

/-- A lexer is one that the engine has kept, or one of a grammar in its table. -/
def MayUse (e : Engine) (l : Lexer) : Prop :=
  (∃ k ∈ e.lexers, k.2 = l) ∨ ∃ k ∈ e.languages, k.2.compile = .ok l

/-- The tokens that the lexers of an engine give for a prepared text, if any, are that text. -/
def IsLosslessOn (e : Engine) (text : List Char) : Prop :=
  ∀ l, e.MayUse l → ∀ tokens, l.tokens text = .ok tokens → Token.textOf tokens = text

/-- Engines that have nothing but grammars with rules of their own are lossless on every text. -/
theorem isLosslessOn_of_rules (hkept : e.lexers = []) (hrules : ∀ k ∈ e.languages, k.2.lexer = none)
    (text : List Char) : e.IsLosslessOn text := by
  rintro l (⟨k, hk, -⟩ | ⟨k, hk, hcompile⟩) tokens htokens
  · rw [hkept] at hk
    exact absurd hk List.not_mem_nil
  · exact Grammar.textOf_of_tokens (hrules k hk) hcompile htokens

theorem mayUse_of_lexer {name : String} (h : e.lexer name = .ok (l, e')) : e.MayUse l := by
  unfold lexer at h
  cases hget : e.get? name with
  | none => simp [hget] at h
  | some g =>
    rw [hget] at h
    dsimp only at h
    cases hkept : e.lexers.lookup g.name with
    | some kept =>
      simp only [hkept, Except.ok.injEq, Prod.mk.injEq] at h
      obtain ⟨before, after, heq, -⟩ := List.lookup_eq_some_iff.1 hkept
      exact .inl ⟨(g.name, kept), by rw [heq]; simp, h.1⟩
    | none =>
      obtain ⟨k, hk, rfl⟩ := exists_mem_of_get? hget
      cases hcompile : k.2.compile with
      | error fault => simp [hkept, hcompile] at h
      | ok made =>
        simp only [hkept, hcompile, Except.ok.injEq, Prod.mk.injEq] at h
        exact .inr ⟨k, hk, by rw [hcompile, h.1]⟩

/-- Keeping a lexer brings no lexer that the engine could not have made. -/
theorem mayUse_of_keepLexer {name : String} (h : (e.keepLexer name).MayUse l) : e.MayUse l := by
  obtain hsame | ⟨k, hk, made, hcompile, hnew⟩ := keepLexer_cases e name
  · rwa [hsame] at h
  · rw [hnew] at h
    obtain ⟨k', hk', rfl⟩ | hlanguage := h
    · rcases List.mem_cons.1 hk' with rfl | hk'
      · exact .inr ⟨k, hk, hcompile⟩
      · exact .inl ⟨k', hk', rfl⟩
    · exact .inr hlanguage

/-- What an engine makes of a text are the spans of the tokens of a lexer. -/
theorem exists_tokens_of_highlight {code name spans : String}
    (h : e.highlight code name = .ok spans) :
    ∃ l, e.MayUse l ∧ ∃ tokens, l.tokens (Preparation.keepingLines.apply code.toList) = .ok tokens ∧
      spans = Spans.ofTokens tokens := by
  unfold highlight rawTokens at h
  cases hlexer : e.lexer name with
  | error fault => simp [hlexer, bind, Except.bind, Except.map] at h
  | ok answer =>
    obtain ⟨l, e'⟩ := answer
    cases htokens : l.tokensOf .keepingLines code with
    | error fault => simp [hlexer, htokens, bind, Except.bind, Except.map, throw, throwThe,
        MonadExceptOf.throw] at h
    | ok tokens =>
      simp only [hlexer, htokens, bind, Except.bind, pure, Except.pure, Except.map,
        Except.ok.injEq] at h
      exact ⟨l, mayUse_of_lexer hlexer, tokens, htokens, h.symm⟩

end Engine

/-! ## The new block -/

/-- A node is a highlighted form of a block: it has the classes of the block, and in it one of its
codes with the classes of that code and the text that is shown of it. -/
inductive Html.PagePlace.IsHighlightedAs (q : PagePlace) : Node → Prop
  | intro {tag : Tag} {children ns : List Node} (hpre : q.tag.name = "pre")
      (hchild : .element tag children ∈ q.children) (hcode : tag.name = "code")
      (htext : Node.textContents ns = Text.shown (Node.textContents children)) :
      IsHighlightedAs q (.element (Highlighting.preTag q.tag)
        [.element (Highlighting.codeTag tag) ns])

namespace Highlighting

variable {isOld : Bool} {new : Node}

/-- A visit replaces nothing, or the `pre` around a code by a block that is read from the markup of
what the engine makes of the code. -/
theorem replacement_cases (isOld : Bool) (h : Highlighting) (q : PagePlace) :
    q.replacement (visit isOld) h = {} ∨ ∃ pre language spans new, q.parent = some pre ∧
      pre.name = "pre" ∧ q.tag.name = "code" ∧
      h.engine.highlight (String.ofList (Node.textContents q.children)) language = .ok spans ∧
      elementOf (markup pre q.tag spans) "pre" = .ok new ∧
      q.replacement (visit isOld) h = { around := some new } := by
  unfold PagePlace.replacement
  obtain ⟨log, hvisit⟩ | ⟨pre, language, hparent, hfits, hvisit⟩ := visit_cases isOld h q
  · exact .inl (by rw [hvisit])
  · rw [hvisit]
    obtain ⟨fault, hfault⟩ | ⟨spans, new, hspans, hnew, hlight⟩ :=
      highlight_cases h pre q.tag q.children language
    · exact .inl (by rw [hfault])
    · rw [hparent] at hfits
      have hnames : "code" = q.tag.name ∧ "pre" = pre.name := by
        simpa [codeSelector, Selector.fits, Simple.fits] using hfits
      exact .inr ⟨pre, language, spans, new, hparent, hnames.2.symm, hnames.1.symm, hspans, hnew,
        by rw [hlight]⟩

/-- Highlighting uses no other lexers than those an engine may use. -/
def MakesDoWith (h : Highlighting) (e : Engine) : Prop :=
  ∀ l, h.engine.MayUse l → e.MayUse l

theorem MakesDoWith.answer {e : Engine} (h : Highlighting) (q : PagePlace)
    (hused : h.MakesDoWith e) : (q.answer (visit isOld) h).MakesDoWith e := by
  intro l hl
  obtain hsame | ⟨name, hkept⟩ := engine_visit isOld h q
  · exact hused l (by rwa [hsame] at hl)
  · exact hused l (Engine.mayUse_of_keepLexer (by rwa [hkept] at hl))

/-- The classes of a block that has been highlighted can be written as they are. -/
theorem isPlainChar_marked {pre : Tag} (hpre : pre.NulFree) :
    ∀ name ∈ pre.classes ++ [Marks.highlighted], ∀ c ∈ name.toList, IsPlainChar c := by
  refine List.forall_mem_append.2 ⟨Tag.isPlainChar_classes hpre, fun name hname => ?_⟩
  rw [List.mem_singleton.1 hname]
  unfold IsPlainChar
  decide

/-- A block that has been highlighted is read from its markup. -/
theorem exists_elementOf {pre code : Tag} (hpre : pre.NulFree) (hcode : code.NulFree)
    {text : List Char} (htext : '\x00' ∉ text) {spans : String}
    (h : Spans.Made spans.toList (Text.shown text)) :
    ∃ ns, elementOf (markup pre code spans) "pre" =
        .ok (.element (preTag pre) [.element (codeTag code) ns]) ∧
      Node.textContents ns = Text.shown text := by
  have hwrites := h.writes (Text.isPlainChar_shown htext)
  obtain ⟨ns, hns, -, hshown⟩ := hwrites.written
  exact ⟨ns, elementOf_markup (isPlainChar_joined (isPlainChar_marked hpre))
    (isPlainChar_joined (Tag.isPlainChar_classes hcode)) hns hwrites.noReturn, hshown⟩

/-- What an element is exchanged for is read from the markup of what the engine makes of a code in
it, and what every visit keeps holds there. -/
theorem exists_highlight_of_exchange? {Good : Highlighting → Prop}
    (hgood : ∀ h (q : PagePlace), Good h → Good (q.answer (visit isOld) h)) {h : Highlighting}
    (hstart : Good h) {q : PagePlace} (hnew : q.exchange? (visit isOld) h = some new) :
    ∃ tag children h' language spans, .element tag children ∈ q.children ∧ Good h' ∧
      q.tag.name = "pre" ∧ tag.name = "code" ∧
      h'.engine.highlight (String.ofList (Node.textContents children)) language = .ok spans ∧
      elementOf (markup q.tag tag spans) "pre" = .ok new := by
  have hown : (q.replacement (visit isOld) h).own = none := by
    obtain hnone | ⟨pre, language, spans, made, -, -, -, -, -, hmade⟩ :=
      replacement_cases isOld h q
    · rw [hnone]
    · rw [hmade]
  have hinside : (rewriteAll (visit isOld) (some q.tag) q.children
      (q.answer (visit isOld) h)).2.1 = some new := by
    rwa [PagePlace.exchange?, hown] at hnew
  -- the element around the codes is replaced by the visit of one of them
  obtain ⟨tag, children, h', hchild, hgood', haround⟩ :=
    exists_around hgood (hgood h q hstart) hinside
  obtain hnone | ⟨pre, language, spans, made, hpre, hname, hname', hspans, hread, hmade⟩ :=
    replacement_cases isOld h' ⟨some q.tag, tag, children⟩
  · rw [PagePlace.replacement] at hnone
    rw [hnone] at haround
    cases haround
  · obtain rfl : q.tag = pre := Option.some.inj hpre
    rw [PagePlace.replacement] at hmade
    rw [hmade] at haround
    obtain rfl : made = new := Option.some.inj haround
    exact ⟨tag, children, h', language, spans, hchild, hgood', hname, hname', hspans, hread⟩

/-- **What a block is exchanged for** is a highlighted form of it, if the lexers that are used give
back the texts of its codes. -/
theorem isHighlightedAs_of_exchange? {e : Engine} {h : Highlighting}
    (hused : h.MakesDoWith e) {q : PagePlace} (hfree : q.node.NulFree)
    (hlossless : ∀ tag children, Node.element tag children ∈ q.children → tag.name = "code" →
      e.IsLosslessOn (Preparation.keepingLines.apply (Node.textContents children)))
    (hnew : q.exchange? (visit isOld) h = some new) : q.IsHighlightedAs new := by
  obtain ⟨tag, children, h', language, spans, hchild, hused', hname, hname', hspans, hread⟩ :=
    exists_highlight_of_exchange? MakesDoWith.answer hused hnew
  obtain ⟨htag, hchildren⟩ := hfree.of_element
  obtain ⟨htag', hinner⟩ := (hchildren _ hchild).of_element
  obtain ⟨l, hl, tokens, htokens, rfl⟩ := Engine.exists_tokens_of_highlight hspans
  rw [String.toList_ofList] at htokens
  have htext := hlossless tag children hchild hname' l (hused' l hl) tokens htokens
  have hspelled := Spans.ofTokens_made tokens
  rw [htext, Preparation.stripEnd_keepingLines] at hspelled
  obtain ⟨ns, hns, hshown⟩ :=
    exists_elementOf htag htag' (Node.NulFree.not_mem_textContents hinner) hspelled
  obtain rfl := Except.ok.inj (hread.symm.trans hns)
  exact .intro hname hchild hname' hshown

/-- **A block is highlighted** if its first element is a code in a language whose lexer gives the
text of the code back, and the block is not marked yet. -/
theorem exists_exchange {h : Highlighting} (hfault : h.fault = none) {q : PagePlace}
    (hfree : q.node.NulFree) (hpre : q.tag.name = "pre")
    (hmark : q.tag.classes.contains Marks.highlighted = false) {before after : List Node}
    {tag : Tag} {children : List Node}
    (hchildren : q.children = before ++ .element tag children :: after)
    (hbefore : ∀ n ∈ before, n.tag? = none) (hcode : tag.name = "code") {language : String}
    (hlanguage : Marks.languageOf tag = some language) {l : Lexer} {e' : Engine}
    (hlexer : h.engine.lexer language = .ok (l, e'))
    (hl : l.IsLosslessOn (String.ofList (Node.textContents children))) :
    ∃ new, q.exchange? (visit isOld) h = some new := by
  obtain ⟨log, hvisit⟩ : ∃ log, visit isOld q.parent q.tag q.children h =
      ({}, { h with log := log }) := by
    refine visit_of_silent (silent_of_name ?_ h.engine)
    rw [hpre]
    decide
  have hfits : codeSelector.fits isOld (some q.tag) tag = true := by
    simp [codeSelector, Selector.fits, Simple.fits, hpre, hcode]
  obtain ⟨g, hg⟩ : ∃ g, h.engine.get? language = some g := by
    cases hget : h.engine.get? language with
    | none => simp [Engine.lexer, hget] at hlexer
    | some g => exact ⟨g, rfl⟩
  obtain ⟨htag, hinside⟩ := hfree.of_element
  obtain ⟨htag', hinner⟩ := (hinside (.element tag children) (by rw [hchildren]; simp)).of_element
  obtain ⟨spans, hspans, hmade⟩ := Engine.exists_made hlexer hl
  rw [String.toList_ofList] at hmade
  obtain ⟨ns, hns, -⟩ :=
    exists_elementOf htag htag' (Node.NulFree.not_mem_textContents hinner) hmade
  have hlight : (visit isOld (some q.tag) tag children { h with log := log }).1 =
      { around := some (.element (preTag q.tag) [.element (codeTag tag) ns]) } := by
    simp only [visit, hfits, hfault, hmark, hlanguage, hg, highlight, hspans, hns]
    rfl
  have haround : (rewriteAll (visit isOld) (some q.tag) (.element tag children :: after)
      { h with log := log }).2.1 = some (.element (preTag q.tag) [.element (codeTag tag) ns]) := by
    simp only [rewriteAll, rewriteIn, hlight]
    rfl
  refine ⟨.element (preTag q.tag) [.element (codeTag tag) ns], ?_⟩
  rw [PagePlace.exchange?, PagePlace.replacement, PagePlace.answer, hvisit, hchildren,
    rewriteAll_append_of_tag? hbefore]
  exact haround

/-- Visits of other elements than codes change nothing. -/
theorem foldl_of_other {places : List PagePlace} (h : ∀ p ∈ places, p.tag.name ≠ "code")
    (start : Highlighting) : places.foldl (PagePlace.answer (visit false)) start = start := by
  induction places with
  | nil => rfl
  | cons p rest ih =>
    obtain ⟨hp, hrest⟩ := List.forall_mem_cons.1 h
    rw [List.foldl_cons, PagePlace.answer, visit_of_other hp]
    exact ih hrest

end Highlighting

/-! ## What is kept -/

/-- The attributes of a tag but its classes. -/
def Html.Tag.others (t : Tag) : List Attribute :=
  t.attributes.filter (·.name != "class")

/-- A child of a block is kept: as it is, or as a code with the text that is shown of it and with
its other attributes. -/
inductive Html.Node.IsKeptAs : Node → Node → Prop
  | same (n : Node) : IsKeptAs n n
  | code {tag tag' : Tag} {children children' : List Node} (hname : tag.name = "code")
      (hname' : tag'.name = "code")
      (htext : textContents children' = Text.shown (textContents children))
      (hothers : tag.others ⊆ tag'.others) :
      IsKeptAs (.element tag children) (.element tag' children')

/-- An element that is kept keeps its other attributes. -/
theorem Html.Node.IsKeptAs.others_subset {m n : Node} (h : m.IsKeptAs n) {tag tag' : Tag}
    (hm : m.tag? = some tag) (hn : n.tag? = some tag') : tag.others ⊆ tag'.others := by
  cases h with
  | same =>
    obtain rfl := Option.some.inj (hm.symm.trans hn)
    exact List.Subset.refl _
  | code _ _ _ hothers =>
    obtain rfl := Option.some.inj hm
    obtain rfl := Option.some.inj hn
    exact hothers

namespace Html.PagePlace

/-- A block is kept in an element: that has its other attributes, and its children, each of them
kept, stand there in their order. -/
def IsKeptIn (q : PagePlace) (new : Node) : Prop :=
  ∃ tag children, new = .element tag children ∧ q.tag.others ⊆ tag.others ∧
    ∃ kept, kept.Sublist children ∧ List.Forall₂ Node.IsKeptAs q.children kept

/-- A block has nothing but classes and one element with nothing but classes. -/
def HoldsCodeOnly (q : PagePlace) : Prop :=
  q.tag.others = [] ∧ ∃ tag children, q.children = [.element tag children] ∧ tag.others = []

/-- A block is kept in a highlighted form exactly if it holds its code only. -/
theorem IsHighlightedAs.isKeptIn_iff {q : PagePlace} {new : Node} (h : q.IsHighlightedAs new) :
    q.IsKeptIn new ↔ q.HoldsCodeOnly := by
  obtain ⟨-, hchild, hname, htext⟩ := h
  next tag children ns =>
  have hpre : (Highlighting.preTag q.tag).others = [] := rfl
  have hcode : (Highlighting.codeTag tag).others = [] := rfl
  constructor
  · rintro ⟨tag', children', hnew, hothers, kept, hsub, hkept⟩
    obtain ⟨rfl, rfl⟩ := Node.element.inj hnew
    refine ⟨List.subset_nil.1 (hpre ▸ hothers), ?_⟩
    rcases List.sublist_singleton.1 hsub with rfl | rfl
    · rw [List.forall₂_nil_right_iff.1 hkept] at hchild
      exact absurd hchild List.not_mem_nil
    · obtain ⟨n, rest, hn, hrest, hchildren⟩ := List.forall₂_cons_right_iff.1 hkept
      rw [List.forall₂_nil_right_iff.1 hrest] at hchildren
      rw [hchildren] at hchild
      obtain rfl := List.mem_singleton.1 hchild
      have hsub := hn.others_subset rfl rfl
      exact ⟨tag, children, hchildren, List.subset_nil.1 (hcode ▸ hsub)⟩
  · rintro ⟨hothers, tag', children', hchildren, hothers'⟩
    rw [hchildren] at hchild
    obtain ⟨rfl, rfl⟩ := Node.element.inj (List.mem_singleton.1 hchild)
    refine ⟨_, _, rfl, by rw [hothers]; exact List.nil_subset _, _, List.Sublist.refl _, ?_⟩
    rw [hchildren]
    exact .cons (.code hname rfl htext (by rw [hothers']; exact List.nil_subset _)) .nil

end Html.PagePlace

/-! ## Pages -/

/-- The lexers of an engine give the texts of the codes of a page. -/
def Engine.IsLosslessAt (e : Engine) (page : Page) : Prop :=
  ∀ parent tag children, ⟨parent, tag, children⟩ ∈ page.root.places none → tag.name = "code" →
    e.IsLosslessOn (Preparation.keepingLines.apply (Node.textContents children))

namespace Html.Page

/-- Highlighting a page exchanges an element for a node. -/
def Highlights (page : Page) (e : Engine) (q : PagePlace) (new : Node) : Prop :=
  Exchanges (Highlighting.visit page.isOld) (page.root.places none) { engine := e } q new

theorem shown_read (text : List Char) : (Page.read text).shown = none := by
  unfold Page.read Builder.finish
  dsimp only
  split <;> rfl

/-- Elements of a page without U+0000 are exchanged for highlighted forms of them. -/
theorem isHighlightedAs_of_highlights {page : Page} {e : Engine} (hfree : page.root.NulFree)
    (hlossless : e.IsLosslessAt page) {q : PagePlace} {new : Node}
    (h : page.Highlights e q new) : q.IsHighlightedAs new := by
  unfold Highlights at h
  obtain ⟨hq, h', hused, hnew⟩ := h.exists_state Highlighting.MakesDoWith.answer fun l hl => hl
  refine Highlighting.isHighlightedAs_of_exchange? hused (hfree.of_mem_places hq) ?_ hnew
  exact fun tag children hchild hname =>
    hlossless _ tag children (Node.mem_places_of_child hchild hq) hname

/-- **Highlighting loses what is beside the code.**  On a parsed page whose codes the lexers give
back, everything stays but the blocks that are exchanged.  Such a block is a `pre` and is exchanged
for a highlighted form of it; and it is kept, with its children, the text of its codes and its
attributes, exactly if it holds nothing but the code. -/
theorem highlight_keeps_iff (text : List Char) (e : Engine)
    (hlossless : e.IsLosslessAt (Page.read text)) :
    Exchanged ((Page.read text).Highlights e) none (Page.read text).root
        (((Page.read text).highlight e).1.shown.getD ((Page.read text).highlight e).1.root) ∧
      ∀ q new, (Page.read text).Highlights e q new →
        q.IsHighlightedAs new ∧ (q.IsKeptIn new ↔ q.HoldsCodeOnly) := by
  refine ⟨exchanged_rewrite (shown_read text) _ _, fun q new h => ?_⟩
  have hform := isHighlightedAs_of_highlights (nulFree_read text) hlossless h
  exact ⟨hform, hform.isKeptIn_iff⟩

/-- Where nothing but other elements than codes comes before a place, an element is exchanged there
by the engine as it is. -/
theorem highlights_of_exchange? {page : Page} (hnew : page.isOld = false) {e : Engine}
    {before after : List PagePlace} {q : PagePlace} {new : Node}
    (hplaces : page.root.places none = before ++ q :: after)
    (hbefore : ∀ p ∈ before, p.tag.name ≠ "code")
    (hexchange : q.exchange? (Highlighting.visit false) { engine := e } = some new) :
    page.Highlights e q new := by
  rw [Highlights, hnew, hplaces]
  refine Exchanges.append_right ?_
  rw [Highlighting.foldl_of_other hbefore]
  exact .here hexchange

/-! ## Two pages -/

/-- The tree of a page with one block. -/
def ofBlock (children : List Node) : Node :=
  .element (.bare "html") [.element (.bare "head") [],
    .element (.bare "body") [.element (.bare "pre") children]]

/-- A block of code in the interface definition language, with texts around the code. -/
def idlBlock (before after : List Node) : List Node :=
  before ++ .element (CodeBlock.codeTag "idl") [.text "api A".toList] :: after

theorem exists_highlights_idl {text : List Char} {before after : List Node}
    (hnew : (Page.read text).isOld = false)
    (hroot : (Page.read text).root = ofBlock (idlBlock before after))
    (hbefore : ∀ n ∈ before, n.tag? = none) :
    ∃ new, (Page.read text).Highlights Engine.idlOnly
      ⟨some (.bare "body"), .bare "pre", idlBlock before after⟩ new := by
  obtain ⟨l, e', hlexer, hl⟩ := Engine.exists_lexer_idlOnly
  have hplaces : (Page.read text).root.places none =
      [⟨none, .bare "html", [.element (.bare "head") [],
          .element (.bare "body") [.element (.bare "pre") (idlBlock before after)]]⟩,
        ⟨some (.bare "html"), .bare "head", []⟩,
        ⟨some (.bare "html"), .bare "body",
          [.element (.bare "pre") (idlBlock before after)]⟩] ++
      ⟨some (.bare "body"), .bare "pre", idlBlock before after⟩ ::
        Node.placesAll (some (.bare "pre")) (idlBlock before after) := by
    rw [hroot]
    simp [ofBlock, Node.places, Node.placesAll]
  have hfree := (nulFree_read text).of_mem_places
    (p := ⟨some (.bare "body"), .bare "pre", idlBlock before after⟩) (by rw [hplaces]; simp)
  have hmark : (Tag.bare "pre").classes.contains Marks.highlighted = false := by decide
  have hlanguage : Marks.languageOf (CodeBlock.codeTag "idl") = some "idl" := by decide
  obtain ⟨new, hexchange⟩ := Highlighting.exists_exchange (h := { engine := Engine.idlOnly }) rfl
    hfree rfl hmark rfl hbefore rfl hlanguage hlexer (hl _)
  refine ⟨new, highlights_of_exchange? hnew hplaces ?_ hexchange⟩
  simp [Tag.bare]

theorem isLosslessAt_idlOnly (page : Page) : Engine.idlOnly.IsLosslessAt page :=
  fun _ _ _ _ _ => Engine.isLosslessOn_of_rules rfl
    (fun k hk => by rw [List.mem_singleton.1 hk]; rfl) _

/-- A page whose block holds its code only. -/
def idlPage : List Char :=
  "<!DOCTYPE html><pre><code class=\"language-idl\">api A</code></pre>".toList

/-- A page whose block has texts around the code. -/
def idlPageWithTexts : List Char :=
  "<!DOCTYPE html><pre>before<code class=\"language-idl\">api A</code>after</pre>".toList

theorem read_idlPage :
    (read idlPage).isOld = false ∧ (read idlPage).root = ofBlock (idlBlock [] []) := by
  unfold idlPage idlBlock CodeBlock.codeTag CodeBlock.languageClass Marks.languageStart
  repeat rw [String.toList_ofList]
  decide +kernel

theorem read_idlPageWithTexts :
    (read idlPageWithTexts).isOld = false ∧
      (read idlPageWithTexts).root =
        ofBlock (idlBlock [.text "before".toList] [.text "after".toList]) := by
  unfold idlPageWithTexts idlBlock CodeBlock.codeTag CodeBlock.languageClass Marks.languageStart
  repeat rw [String.toList_ofList]
  decide +kernel

/-- A block that holds its code only is kept. -/
theorem highlight_keeps_idl :
    Engine.idlOnly.IsLosslessAt (read idlPage) ∧
      ∃ q new, (read idlPage).Highlights Engine.idlOnly q new ∧ q.IsKeptIn new := by
  obtain ⟨new, hnew⟩ := exists_highlights_idl read_idlPage.1 read_idlPage.2 (by simp)
  have hkeeps := highlight_keeps_iff idlPage Engine.idlOnly (isLosslessAt_idlOnly _)
  exact ⟨isLosslessAt_idlOnly _, _, new, hnew, (hkeeps.2 _ new hnew).2.2 ⟨rfl, _, _, rfl, rfl⟩⟩

/-- The text around a code is lost: a block does not hold its code only, and is not kept. -/
theorem not_forall_isKeptIn :
    ¬ ∀ (text : List Char) (e : Engine) (q : PagePlace) (new : Node),
      (read text).Highlights e q new → q.IsKeptIn new := by
  intro h
  obtain ⟨new, hnew⟩ := exists_highlights_idl read_idlPageWithTexts.1 read_idlPageWithTexts.2
    (by simp [Node.tag?])
  have hform := isHighlightedAs_of_highlights (nulFree_read _) (isLosslessAt_idlOnly _) hnew
  obtain ⟨-, tag, children, hchildren, -⟩ := hform.isKeptIn_iff.1 (h _ _ _ _ hnew)
  simp [idlBlock] at hchildren

end Html.Page

end DocHighlighter
