/-
# Pages that are highlighted in one go

Highlighting a page should leave no code to be highlighted, so that highlighting it once more does
nothing (`Html.Page.SettlesUnder`).  It does so exactly if it ends well, that is if each code is
lexed when its turn comes (`Html.Page.settlesUnder_iff`).  That the grammars of an engine can all be
made lexers is not enough: C with a keyword has no tokens for a declaration
(`Html.Page.not_forall_settlesUnder`).

Codes are looked for before the page is changed.  Still nothing is missed: an element that is not
exchanged has no code to be highlighted among its children, for such a code would have exchanged
it; and what it is exchanged for is marked, and has texts and spans in its code and no code
(`Highlighting.IsNewBlock.calm`).
-/

import DocHighlighter.Proofs.Block.Ends
import DocHighlighter.Proofs.Grammar.SoundCheck
import DocHighlighter.Proofs.Grammar.Keywords
import DocHighlighter.Proofs.Html.Root
import DocHighlighter.Proofs.Render.Truthful

namespace DocHighlighter

open Html

namespace Highlighting

variable {isOld : Bool} {e : Engine}

/-! ## New blocks -/

theorem isBusy_of_name {q : PagePlace} (h : q.tag.name ≠ "code") : isBusy isOld e q = false :=
  isBusy_eq_false_iff.2 (silent_of_name h e)

/-- A code that is to be highlighted stands in a `pre`. -/
theorem name_of_isBusy {q : PagePlace} (h : isBusy isOld e q = true) :
    q.tag.name = "code" ∧ ∀ pre ∈ q.parent, pre.name = "pre" := by
  unfold isBusy at h
  cases hparent : q.parent with
  | none => simp [hparent] at h
  | some pre =>
    simp only [hparent, Option.any_some, Bool.and_eq_true] at h
    have hnames : "code" = q.tag.name ∧ "pre" = pre.name := by
      simpa [codeSelector, Selector.fits, Simple.fits] using h.1.1
    exact ⟨hnames.1.symm, fun _ ht => Option.some.inj ht ▸ hnames.2.symm⟩

theorem isBusy_of_marked {pre tag : Tag} {children : List Node}
    (h : pre.classes.contains Marks.highlighted = true) :
    isBusy isOld e ⟨some pre, tag, children⟩ = false := by
  simp only [isBusy, Option.any_some, h, Bool.not_true, Bool.and_false, Bool.false_and]

theorem mem_fields_joined {classes : List String} {name : String} (hname : name ∈ classes)
    (hne : name.toList ≠ []) (hplain : ∀ c ∈ name.toList, Text.isBlank c = false) :
    name.toList ∈ Text.fields Text.isBlank (joined classes) := by
  have hself : name.toList ∈ Text.fields Text.isBlank name.toList := by
    rw [Text.fields_of_forall_not hne hplain]
    exact List.mem_cons_self
  induction classes with
  | nil => exact absurd hname List.not_mem_nil
  | cons first rest ih =>
    by_cases hrest : rest = []
    · subst hrest
      obtain rfl := List.mem_singleton.1 hname
      exact hself
    · rw [joined_cons first hrest, Text.fields_append (by decide)]
      rcases List.mem_cons.1 hname with rfl | hname
      · exact List.mem_append_left _ hself
      · exact List.mem_append_right _ (ih hname)

/-- A new block is marked. -/
theorem contains_preTag (pre : Tag) :
    (preTag pre).classes.contains Marks.highlighted = true := by
  rw [List.contains_iff_mem]
  exact List.mem_map.2 ⟨_, mem_fields_joined (by simp) (by decide) (by decide),
    String.ofList_toList⟩

/-- Texts and spans hold no code. -/
theorem isBusy_of_isSpan {parent : Option Tag} {ns : List Node} (hns : ∀ n ∈ ns, n.IsSpan) :
    ∀ q ∈ Node.placesAll parent ns, isBusy isOld e q = false := by
  intro q hq
  rw [Node.placesAll_eq_flatMap, List.mem_flatMap] at hq
  obtain ⟨n, hn, hq⟩ := hq
  cases hns n hn with
  | text => exact absurd hq List.not_mem_nil
  | @span kind s =>
    obtain rfl : q = ⟨parent, kind.spanTag, [.text s]⟩ := by
      simpa [Node.places, Node.placesAll] using hq
    exact isBusy_of_name (by simp [Kind.spanTag])

/-- **A new block leaves nothing to be highlighted.** -/
theorem IsNewBlock.calm {pre code : Tag} {new : Node} (h : IsNewBlock pre code new)
    (parent : Option Tag) : ∀ q ∈ new.places parent, isBusy isOld e q = false := by
  obtain ⟨hns⟩ := h
  intro q hq
  simp only [Node.places, Node.placesAll, List.append_nil, List.mem_cons] at hq
  rcases hq with rfl | rfl | hq
  · exact isBusy_of_name (by simp [preTag])
  · exact isBusy_of_marked (contains_preTag pre)
  · exact isBusy_of_isSpan hns q hq

/-! ## What is left -/

/-- An element without U+0000 is exchanged only for a new block with one of its codes. -/
theorem isNewBlock_of_exchange? {h : Highlighting} {q : PagePlace} (hfree : q.node.NulFree)
    {new : Node} (hnew : q.exchange? (visit isOld) h = some new) :
    ∃ code children, .element code children ∈ q.children ∧ IsNewBlock q.tag code new := by
  obtain ⟨tag, children, h', language, spans, hchild, -, -, -, hspans, hread⟩ :=
    exists_highlight_of_exchange? (fun _ _ (_ : True) => trivial) trivial hnew
  obtain ⟨htag, hchildren⟩ := hfree.of_element
  obtain ⟨htag', hinner⟩ := (hchildren _ hchild).of_element
  obtain ⟨ns, hns, hspan⟩ := exists_read_of_highlight htag htag'
    (Node.NulFree.not_mem_textContents hinner) hspans
  obtain rfl := Except.ok.inj (hread.symm.trans hns)
  exact ⟨tag, children, hchild, .intro hspan⟩

mutual

/-- **Where highlighting ends well, it leaves a code to be highlighted at a node only if the node is
one itself**: a code inside of it is highlighted together with the element around it. -/
theorem busy_of_mem_rewriteIn {parent : Option Tag} {q : PagePlace}
    (hbusy : isBusy isOld e q = true) : ∀ {n : Node} {h : Highlighting}, n.NulFree →
      h.engine.languages = e.languages → (rewriteIn (visit isOld) parent n h).2.2.fault = none →
        q ∈ (rewriteIn (visit isOld) parent n h).1.places parent →
          (n.place? parent).any (isBusy isOld e) = true
  | .text _, _, _, _, _, hq => absurd hq List.not_mem_nil
  | .comment _, _, _, _, _, hq => absurd hq List.not_mem_nil
  | .element tag children, h, hfree, hlanguages, hend, hq => by
    let here : PagePlace := ⟨parent, tag, children⟩
    have hnode : (rewriteIn (visit isOld) parent (.element tag children) h).1 =
        (here.exchange? (visit isOld) h).getD (.element tag
          (rewriteAll (visit isOld) (some tag) children (here.answer (visit isOld) h)).1) := rfl
    have hsome := (counts isOld e).isSome_exchange? here hlanguages hend
    rw [hnode] at hq
    cases hnew : here.exchange? (visit isOld) h with
    | some new =>
      obtain ⟨code, -, -, hblock⟩ := isNewBlock_of_exchange? (q := here) hfree hnew
      rw [hnew, Option.getD_some] at hq
      rw [hblock.calm parent q hq] at hbusy
      cases hbusy
    | none =>
      rw [hnew, Option.isSome_none, Bool.false_or] at hsome
      rw [hnew, Option.getD_none] at hq
      rcases List.mem_cons.1 hq with rfl | hq
      · exact hbusy
      · have hchild := busy_of_mem_rewriteAll hbusy (hfree.of_element).2
          ((languages_visit isOld h here).trans hlanguages) hend hq
        exact absurd (hsome.trans hchild) Bool.false_ne_true

theorem busy_of_mem_rewriteAll {parent : Option Tag} {q : PagePlace}
    (hbusy : isBusy isOld e q = true) : ∀ {ns : List Node} {h : Highlighting},
      (∀ n ∈ ns, n.NulFree) → h.engine.languages = e.languages →
        (rewriteAll (visit isOld) parent ns h).2.2.fault = none →
          q ∈ Node.placesAll parent (rewriteAll (visit isOld) parent ns h).1 →
            (ns.filterMap (Node.place? parent)).any (isBusy isOld e) = true
  | [], _, _, _, _, hq => absurd hq List.not_mem_nil
  | n :: rest, h, hfree, hlanguages, hend, hq => by
    obtain ⟨hn, hrest⟩ := List.forall_mem_cons.1 hfree
    have hsplit : ((n :: rest).filterMap (Node.place? parent)).any (isBusy isOld e) =
        ((n.place? parent).any (isBusy isOld e) ||
          (rest.filterMap (Node.place? parent)).any (isBusy isOld e)) := by
      cases hplace : n.place? parent <;> simp [hplace]
    have hlanguages' :
        (rewriteIn (visit isOld) parent n h).2.2.engine.languages = e.languages := by
      rw [rewriteIn_answers]
      exact (counts isOld e).inv_foldl _ hlanguages
    have hend' : (rewriteAll (visit isOld) parent rest
        (rewriteIn (visit isOld) parent n h).2.2).2.2.fault = none := hend
    have hfirst : (rewriteIn (visit isOld) parent n h).2.2.fault = none := by
      rw [rewriteAll_answers] at hend'
      exact (counts isOld e).good_of_foldl _ hend'
    rw [hsplit, Bool.or_eq_true]
    rcases List.mem_append.1 hq with hq | hq
    · exact .inl (busy_of_mem_rewriteIn hbusy hn hlanguages hfirst hq)
    · exact .inr (busy_of_mem_rewriteAll hbusy hrest hlanguages' hend' hq)

end

end Highlighting

/-! ## The whole page -/

namespace Html.Page

variable {p : Page} {e e' : Engine}

/-- Highlighting a page settles it: it ends well, leaves no code in the document that is to be
highlighted, and leaves nothing to be done by highlighting the page once more. -/
structure SettlesUnder (p : Page) (e : Engine) : Prop where
  ends : (p.highlight e).2.fault = none
  complete : ∀ q ∈ ((p.highlight e).1.shown.getD (p.highlight e).1.root).places none,
    Highlighting.isBusy p.isOld e q = false
  again : ((p.highlight e).1.highlight (p.highlight e).2.engine).2.fault = none ∧
    ((p.highlight e).1.highlight (p.highlight e).2.engine).2.count = 0 ∧
    ((p.highlight e).1.highlight (p.highlight e).2.engine).1 = (p.highlight e).1

theorem isOld_highlight (p : Page) (e : Engine) : (p.highlight e).1.isOld = p.isOld :=
  isOld_rewrite ..

/-- Highlighting a page does nothing exactly if it has no code to be highlighted. -/
theorem highlight_idle_iff (p : Page) (e : Engine) :
    (p.highlight e).2.fault = none ∧ (p.highlight e).2.count = 0 ∧ (p.highlight e).1 = p ↔
      ∀ q ∈ p.root.places none, Highlighting.isBusy p.isOld e q = false := by
  have hidle := (Highlighting.rests p.isOld).idle_rewrite_iff p { engine := e }
  have hstart : ({ engine := e } : Highlighting).Idle := ⟨rfl, rfl⟩
  simp only [hstart, true_and, ← Highlighting.isBusy_eq_false_iff] at hidle
  rw [← hidle]
  constructor
  · exact fun h => ⟨h.1, h.2.1⟩
  · exact fun h => ⟨h.1, h.2, (Highlighting.rests p.isOld).page_rewrite_eq h⟩

/-- **Where highlighting ends well, no code to be highlighted is left in the document.** -/
theorem calm_document (hshown : p.shown = none) (hfree : p.root.NulFree)
    (hend : (p.highlight e).2.fault = none) :
    ∀ q ∈ ((p.highlight e).1.shown.getD (p.highlight e).1.root).places none,
      Highlighting.isBusy p.isOld e q = false := by
  intro q hq
  rw [highlight, ← Page.new_patchedIn _ hshown, Html.new_patchedIn] at hq
  rw [highlight, rewrite_answers, ← rewriteIn_answers] at hend
  cases hbusy : Highlighting.isBusy p.isOld e q with
  | false => rfl
  | true =>
    have hroot := Highlighting.busy_of_mem_rewriteIn hbusy hfree rfl hend hq
    cases hnode : p.root with
    | text content => simp [hnode, Node.place?] at hroot
    | comment content => simp [hnode, Node.place?] at hroot
    | element tag children => simp [hnode, Node.place?, Highlighting.isBusy] at hroot

/-- **Nor is any left in the root of the page,** if that is no `pre`. -/
theorem calm_root {tag : Tag} {children : List Node} (hroot : p.root = .element tag children)
    (hname : tag.name ≠ "pre") (hfree : p.root.NulFree) (hend : (p.highlight e).2.fault = none) :
    ∀ q ∈ (p.highlight e).1.root.places none, Highlighting.isBusy p.isOld e q = false := by
  let here : PagePlace := ⟨none, tag, children⟩
  let h : Highlighting := here.answer (Highlighting.visit p.isOld) { engine := e }
  have hnew : (p.highlight e).1.root =
      .element tag (rewriteAll (Highlighting.visit p.isOld) (some tag) children h).1 := by
    simp only [highlight, rewrite, hroot]
    rfl
  rw [hnew]
  intro q hq
  cases hbusy : Highlighting.isBusy p.isOld e q with
  | false => rfl
  | true =>
    rcases List.mem_cons.1 hq with rfl | hq
    · simp [Highlighting.isBusy] at hbusy
    · rw [hroot] at hfree
      rw [highlight, rewrite_answers, hroot, Node.places, List.foldl_cons,
        ← rewriteAll_answers] at hend
      -- a code to be highlighted has been there before, and the root is the block around it
      have hany := Highlighting.busy_of_mem_rewriteAll hbusy hfree.of_element.2
        (Highlighting.languages_visit p.isOld _ here) hend hq
      obtain ⟨child, hchild, hbusy'⟩ := List.any_eq_true.1 hany
      obtain ⟨n, -, hplace⟩ := List.mem_filterMap.1 hchild
      exact absurd ((Highlighting.name_of_isBusy hbusy').2 tag (Node.parent_of_place? hplace)) hname

/-- **Highlighting settles a page exactly if each code is lexed when its turn comes.** -/
theorem settlesUnder_iff (text : List Char) (e : Engine) :
    (read text).SettlesUnder e ↔ (read text).LexesEveryBlock e := by
  have hfree := nulFree_read text
  obtain ⟨tag, children, hroot, hpage⟩ := exists_root_read text
  have hname : tag.name ≠ "pre" := by
    simp only [Tag.isPage, Bool.and_eq_true, beq_iff_eq] at hpage
    rw [hpage.2]
    decide
  have hagain := highlight_idle_iff ((read text).highlight e).1 ((read text).highlight e).2.engine
  simp only [isOld_highlight, Highlighting.isBusy_congr
    (Highlighting.languages_highlight (read text) e)] at hagain
  rw [← fault_highlight_eq_none_iff hfree]
  constructor
  · exact fun h => h.ends
  · intro hend
    exact ⟨hend, calm_document (shown_read text) hfree hend,
      hagain.2 (calm_root hroot hname hfree hend)⟩

end Html.Page

/-! ## A page that is not settled -/

/-- An engine for C with a keyword. -/
def Engine.cWithKeyword : Engine :=
  ⟨[("x", { name := "x", displayName := "X", lexer := some .c, keywords := ["f"] })], [], "default"⟩

/-- Its one grammar is made a lexer, and the lexer can be set up. -/
theorem Engine.exists_compile_cWithKeyword {name : String} {g : Grammar}
    (h : cWithKeyword.get? name = some g) :
    g.lexer = some .c ∧ g.keywords ≠ [] ∧ ∃ l, g.compile = .ok l ∧ l.SetsUp := by
  obtain ⟨k, hk, rfl⟩ := exists_mem_of_get? h
  obtain rfl := List.mem_singleton.1 hk
  exact ⟨rfl, by decide,
    Grammar.exists_compile_setsUp _ fun r hr => absurd hr List.not_mem_nil⟩

/-- A lexer for C with keywords gives no tokens for a declaration. -/
theorem Grammar.not_tokens_declaration {g : Grammar} (hlexer : g.lexer = some .c)
    (hkeywords : g.keywords ≠ []) {l : Lexer} (hcompile : g.compile = .ok l)
    (tokens : List Token) : l.tokens Lexer.declaration ≠ .ok tokens := by
  obtain rfl := Except.ok.inj ((compile_eq_lexerOn hlexer).symm.trans hcompile)
  obtain ⟨ps, hbase⟩ := ReadyMade.c.exists_placedTokens Lexer.declaration
  rw [Lexer.tokens_eq]
  rcases placedTokens_lexerOn (g := g) hbase with ⟨hnone | hnot, -⟩ | ⟨-, -, hends⟩
  · exact absurd hnone hkeywords
  · exact absurd ReadyMade.asksForState_declaration hnot
  · rw [hends]
    exact fun h => by cases h

namespace Html.Page

/-- A page with a declaration of C. -/
def declarationPage : List Char :=
  "<!DOCTYPE html><pre><code class=\"language-x\">a f();</code></pre>".toList

theorem read_declarationPage :
    (read declarationPage).isOld = false ∧ (read declarationPage).root =
      ofBlock [.element (CodeBlock.codeTag "x") [.text "a f();".toList]] := by
  unfold declarationPage CodeBlock.codeTag CodeBlock.languageClass Marks.languageStart
  repeat rw [String.toList_ofList]
  decide +kernel

/-- **That all grammars of an engine can be made lexers is not enough** to settle a page: the lexer
of C with a keyword has no tokens for a declaration, so highlighting goes wrong. -/
theorem not_forall_settlesUnder : ¬ ∀ (text : List Char) (e : Engine),
    (∀ name g, e.get? name = some g → ∃ l, g.compile = .ok l ∧ l.SetsUp) →
      (read text).SettlesUnder e := by
  intro hall
  have hends := (hall declarationPage Engine.cWithKeyword
    fun name g hg => (Engine.exists_compile_cWithKeyword hg).2.2).ends
  obtain ⟨hnew, hroot⟩ := read_declarationPage
  let code : PagePlace :=
    ⟨some (.bare "pre"), CodeBlock.codeTag "x", [.text "a f();".toList]⟩
  have hplaces : (read declarationPage).root.places none =
      [⟨none, .bare "html", [.element (.bare "head") [], .element (.bare "body")
          [.element (.bare "pre") [code.node]]]⟩,
        ⟨some (.bare "html"), .bare "head", []⟩,
        ⟨some (.bare "html"), .bare "body", [.element (.bare "pre") [code.node]]⟩,
        ⟨some (.bare "body"), .bare "pre", [code.node]⟩] ++ code :: [] := by
    rw [hroot]
    simp [ofBlock, Node.places, Node.placesAll, code, PagePlace.node]
  have hbusy :
      Highlighting.isBusy (read declarationPage).isOld Engine.cWithKeyword code = true := by
    rw [hnew]
    decide
  obtain ⟨language, spans, -, hspans⟩ :=
    (fault_highlight_eq_none_iff (nulFree_read _)).1 hends _ code [] hplaces hbusy
  rw [litBefore_of_other hnew (by simp [Tag.bare])] at hspans
  obtain ⟨l, hl, tokens, htokens, -⟩ := Engine.exists_tokens_of_highlight hspans
  have hprepared : Preparation.keepingLines.apply
      (String.ofList (Node.textContents code.children)).toList = Lexer.declaration := by
    rw [String.toList_ofList]
    decide
  rw [hprepared] at htokens
  obtain ⟨k, hk, -⟩ | ⟨k, hk, hcompile⟩ := hl
  · exact absurd hk List.not_mem_nil
  · obtain rfl := List.mem_singleton.1 hk
    exact Grammar.not_tokens_declaration rfl (by decide) hcompile tokens htokens

end Html.Page

end DocHighlighter
