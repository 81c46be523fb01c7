/-
# The languages of a code

The classes of a code may name several languages (`Marks.languagesOf`), known ones and others.  A
block should be highlighted if one of them is known, whatever stands before and behind it
(`Html.Page.FindsEveryBlock`).

Only the first name counts (`Marks.languageOf_eq`), known or not, and it counts as none if it is
empty.  So every block is found exactly if on each code that names a known language the first
name is a known one (`Html.Page.findsEveryBlock_iff`).  Not every page is like that
(`Html.Page.not_forall_findsEveryBlock`).

| the classes of the code | what is done, if the engine knows `idl` only |
|---|---|
| `language-idl language-cobol` | the block is highlighted |
| `language-cobol language-idl` | there is a warning about `cobol` |
| `language- language-idl` | nothing |
-/

import DocHighlighter.Proofs.Block.Ends

namespace DocHighlighter

open Html

namespace Marks

/-- The languages that the classes of an element name, in their order; a name may be empty. -/
def languagesOf (t : Tag) : List String :=
  (t.classes.filter fun c => languageStart.toList.isPrefixOf c.toList).map fun c =>
    String.ofList (c.toList.drop languageStart.toList.length)

/-- **The first name counts,** unless it is empty. -/
theorem languageOf_eq (t : Tag) :
    languageOf t = (languagesOf t).head?.filter (· != "") := by
  rw [languageOf, languagesOf, List.head?_map, List.head?_filter]
  cases t.classes.find? fun c => languageStart.toList.isPrefixOf c.toList with
  | none => rfl
  | some c =>
    dsimp only [Option.map_some]
    cases c.toList.drop languageStart.toList.length with
    | nil => rfl
    | cons d rest =>
      have hne : String.ofList (d :: rest) ≠ "" := by
        rw [Ne, ← String.toList_inj, String.toList_ofList]
        exact List.cons_ne_nil d rest
      change some (String.ofList (d :: rest)) = (some (String.ofList (d :: rest))).filter (· != "")
      rw [Option.filter_some, if_pos (bne_iff_ne.2 hne)]

theorem languageOf_eq_some_iff {t : Tag} {language : String} :
    languageOf t = some language ↔ (languagesOf t).head? = some language ∧ language ≠ "" := by
  rw [languageOf_eq, Option.filter_eq_some_iff, bne_iff_ne]

theorem mem_languagesOf {t : Tag} {language : String} (h : languageOf t = some language) :
    language ∈ languagesOf t :=
  List.mem_of_mem_head? (languageOf_eq_some_iff.1 h).1

end Marks

namespace Highlighting

variable {isOld : Bool} {e : Engine} {q : PagePlace}

/-- Whether an element is a code of a block that is not highlighted, and one of its classes names a
language of the engine. -/
def namesKnown (isOld : Bool) (e : Engine) (q : PagePlace) : Bool :=
  q.parent.any fun pre => codeSelector.fits isOld q.parent q.tag &&
    !pre.classes.contains Marks.highlighted &&
    (Marks.languagesOf q.tag).any fun language => (e.get? language).isSome

theorem namesKnown_of_isBusy (h : isBusy isOld e q = true) : namesKnown isOld e q = true := by
  obtain ⟨language, hlanguage, hknown⟩ := exists_language_of_isBusy h
  have hany : ((Marks.languagesOf q.tag).any fun l => (e.get? l).isSome) = true :=
    List.any_eq_true.2 ⟨language, Marks.mem_languagesOf hlanguage, hknown⟩
  obtain ⟨pre, hpre, hcode⟩ := (Option.any_eq_true ..).1 h
  refine (Option.any_eq_true ..).2 ⟨pre, hpre, ?_⟩
  rw [Bool.and_eq_true] at hcode ⊢
  exact ⟨hcode.1, hany⟩

/-- A code that names a known language is to be highlighted exactly if the first name is a known
one. -/
theorem isBusy_iff_of_namesKnown (h : namesKnown isOld e q = true) : isBusy isOld e q = true ↔
    ∃ language, (Marks.languagesOf q.tag).head? = some language ∧ language ≠ "" ∧
      (e.get? language).isSome = true := by
  constructor
  · intro hbusy
    obtain ⟨language, hlanguage, hknown⟩ := exists_language_of_isBusy hbusy
    obtain ⟨hhead, hne⟩ := Marks.languageOf_eq_some_iff.1 hlanguage
    exact ⟨language, hhead, hne, hknown⟩
  · rintro ⟨language, hhead, hne, hknown⟩
    obtain ⟨pre, hpre, hcode⟩ := (Option.any_eq_true ..).1 h
    refine (Option.any_eq_true ..).2 ⟨pre, hpre, ?_⟩
    rw [Bool.and_eq_true] at hcode ⊢
    refine ⟨hcode.1, ?_⟩
    rw [Marks.languageOf_eq_some_iff.2 ⟨hhead, hne⟩]
    exact hknown

/-- The visit of a code puts its block, highlighted in a known language that its classes name, in
the place of the block around it. -/
def LightsUp (isOld : Bool) (h : Highlighting) (q : PagePlace) : Prop :=
  ∃ pre language spans new, q.parent = some pre ∧ language ∈ Marks.languagesOf q.tag ∧
    (h.engine.get? language).isSome = true ∧
    h.engine.highlight (String.ofList (Node.textContents q.children)) language = .ok spans ∧
    elementOf (markup pre q.tag spans) "pre" = .ok new ∧
    (q.replacement (visit isOld) h).around = some new

/-- Where a visit ends well, it lights up exactly the codes that are to be highlighted. -/
theorem lightsUp_iff {h : Highlighting} (hend : (q.answer (visit isOld) h).fault = none) :
    LightsUp isOld h q ↔ isBusy isOld h.engine q = true := by
  constructor
  · rintro ⟨-, -, -, new, -, -, -, -, -, hnew⟩
    rw [← (counts isOld h.engine).around_eq h q rfl hend, hnew]
    rfl
  · intro hbusy
    have hfault : h.fault = none := (counts isOld h.engine).good h q hend
    have hloud : ¬ Silent isOld h.engine q := by
      rw [← isBusy_eq_false_iff, hbusy]
      exact Bool.false_ne_true.symm
    obtain ⟨pre, language, hpre, -, hlanguage, hknown, hvisit⟩ := visit_of_busy hloud hfault
    obtain ⟨fault, herror⟩ | ⟨spans, new, hspans, hnew, hlit⟩ :=
      highlight_cases h pre q.tag q.children language
    · rw [PagePlace.answer, hvisit, herror] at hend
      cases hend
    · refine ⟨pre, language, spans, new, hpre, Marks.mem_languagesOf hlanguage, hknown, hspans,
        hnew, ?_⟩
      rw [PagePlace.replacement, hvisit, hlit]

end Highlighting

namespace Html

mutual

/-- An element of a page comes right before the elements inside of it. -/
theorem exists_split_of_mem_places {parent : Option Tag} {q : PagePlace} : ∀ {n : Node},
    q ∈ n.places parent → ∃ before after, n.places parent = before ++ q :: (q.inside ++ after)
  | .text _, hq => absurd hq List.not_mem_nil
  | .comment _, hq => absurd hq List.not_mem_nil
  | .element tag children, hq => by
    rcases List.mem_cons.1 hq with rfl | hq
    · exact ⟨[], [], by rw [List.append_nil]; rfl⟩
    · obtain ⟨before, after, hsplit⟩ := exists_split_of_mem_placesAll hq
      exact ⟨⟨parent, tag, children⟩ :: before, after, by rw [Node.places, hsplit]; rfl⟩

theorem exists_split_of_mem_placesAll {parent : Option Tag} {q : PagePlace} : ∀ {ns : List Node},
    q ∈ Node.placesAll parent ns →
      ∃ before after, Node.placesAll parent ns = before ++ q :: (q.inside ++ after)
  | [], hq => absurd hq List.not_mem_nil
  | n :: rest, hq => by
    rcases List.mem_append.1 hq with hq | hq
    · obtain ⟨before, after, hsplit⟩ := exists_split_of_mem_places hq
      exact ⟨before, after ++ Node.placesAll parent rest, by
        rw [Node.placesAll, hsplit]; simp⟩
    · obtain ⟨before, after, hsplit⟩ := exists_split_of_mem_placesAll hq
      exact ⟨n.places parent ++ before, after, by rw [Node.placesAll, hsplit]; simp⟩

end

namespace Page

variable {p : Page} {e : Engine}

/-- Highlighting finds every block with a code that names a known language: each such code lights up
when its turn comes, each is counted, and the block around it is exchanged on the page. -/
structure FindsEveryBlock (p : Page) (e : Engine) : Prop where
  lit : ∀ before q after, p.root.places none = before ++ q :: after →
    Highlighting.namesKnown p.isOld e q = true →
      Highlighting.LightsUp p.isOld (p.litBefore e before) q
  counted : (p.highlight e).2.count =
    (p.root.places none).countP (Highlighting.namesKnown p.isOld e)
  blocks : ∀ q ∈ p.root.places none,
    q.childPlaces.any (Highlighting.namesKnown p.isOld e) = true → ∃ new, p.Highlights e q new

/-- Where highlighting ends well, a code lights up exactly if it is to be highlighted. -/
theorem lightsUp_litBefore_iff (hend : (p.highlight e).2.fault = none)
    {before after : List PagePlace} {q : PagePlace}
    (hplaces : p.root.places none = before ++ q :: after) :
    Highlighting.LightsUp p.isOld (p.litBefore e before) q ↔
      Highlighting.isBusy p.isOld e q = true := by
  rw [← isBusy_litBefore p e before]
  refine Highlighting.lightsUp_iff ?_
  rw [← litBefore_append_singleton]
  exact fault_litBefore hend (hplaces.trans (List.append_cons ..))

/-- Where highlighting ends well, an element with a code to be highlighted is exchanged. -/
theorem exists_highlights_of_isBusy (hend : (p.highlight e).2.fault = none) {q : PagePlace}
    (hq : q ∈ p.root.places none)
    (hbusy : q.childPlaces.any (Highlighting.isBusy p.isOld e) = true) :
    ∃ new, p.Highlights e q new := by
  obtain ⟨before, after, hsplit⟩ := exists_split_of_mem_places hq
  have hinside : (rewriteAll (Highlighting.visit p.isOld) (some q.tag) q.children
      (q.answer (Highlighting.visit p.isOld) (p.litBefore e before))).2.2.fault = none := by
    have hall : p.root.places none = (before ++ q :: q.inside) ++ after := by
      rw [hsplit]
      simp
    have hfold := fault_litBefore hend hall
    rwa [litBefore, List.foldl_append, List.foldl_cons, PagePlace.inside,
      ← rewriteAll_answers] at hfold
  have hsome := (Highlighting.counts p.isOld e).isSome_exchange? q
    (p.languages_litBefore e before) hinside
  rw [hbusy, Bool.or_true, Option.isSome_iff_exists] at hsome
  obtain ⟨new, hnew⟩ := hsome
  refine ⟨new, ?_⟩
  rw [Highlights, hsplit]
  exact Exchanges.append_right (.here hnew)

/-- **Every block that names a known language is found exactly if it names one first.**  If
highlighting ends well, each code with a known language lights up, is counted, and has its block
exchanged, if and only if on each of them the first name is not empty and known. -/
theorem findsEveryBlock_iff (hend : (p.highlight e).2.fault = none) :
    p.FindsEveryBlock e ↔ ∀ q ∈ p.root.places none, Highlighting.namesKnown p.isOld e q = true →
      ∃ language, (Marks.languagesOf q.tag).head? = some language ∧ language ≠ "" ∧
        (e.get? language).isSome = true := by
  constructor
  · intro h q hq hnames
    obtain ⟨before, after, hsplit⟩ := List.append_of_mem hq
    exact (Highlighting.isBusy_iff_of_namesKnown hnames).1
      ((lightsUp_litBefore_iff hend hsplit).1 (h.lit before q after hsplit hnames))
  · intro h
    have hsame : ∀ q ∈ p.root.places none,
        Highlighting.namesKnown p.isOld e q = true ↔ Highlighting.isBusy p.isOld e q = true :=
      fun q hq => ⟨fun hnames => (Highlighting.isBusy_iff_of_namesKnown hnames).2 (h q hq hnames),
        Highlighting.namesKnown_of_isBusy⟩
    refine ⟨fun before q after hsplit hnames => ?_, ?_, fun q hq hany => ?_⟩
    · exact (lightsUp_litBefore_iff hend hsplit).2 ((hsame q (by simp [hsplit])).1 hnames)
    · have hcount := (Highlighting.counts p.isOld e).count_foldl (p.root.places none)
        (s := { engine := e }) rfl (by rwa [highlight_eq_litBefore] at hend)
      rw [highlight_eq_litBefore]
      simp only [Bool.false_or] at hcount
      rw [List.countP_congr hsame]
      exact hcount.trans (Nat.zero_add _)
    · refine exists_highlights_of_isBusy hend hq ?_
      obtain ⟨c, hc, hnames⟩ := List.any_eq_true.1 hany
      refine List.any_eq_true.2 ⟨c, hc, (hsame c ?_).1 hnames⟩
      obtain ⟨n, hn, hplace⟩ := List.mem_filterMap.1 hc
      cases n with
      | text content => cases hplace
      | comment content => cases hplace
      | element tag children =>
        obtain rfl := Option.some.inj hplace
        exact Node.mem_places_of_child hn hq

end Page
end Html

/-! ## Codes that name two languages -/

/-- Highlighting by an engine that knows nothing but the interface definition language ends well. -/
theorem Engine.fault_highlight_idlOnly (text : List Char) :
    ((Page.read text).highlight idlOnly).2.fault = none := by
  obtain ⟨l, hcompile, hl⟩ := Grammar.exists_isLosslessOn rfl Language.Idl.tagsKnown
    Language.Idl.patternsRead Language.Idl.openingsTake
  refine (Page.fault_highlight_eq_none_iff (Page.nulFree_read text)).2
    (Page.lexesEveryBlock_of_tokens _ (fun name g hg => ?_) fun l' hl' code => ?_)
  · obtain ⟨k, hk, rfl⟩ := exists_mem_of_get? hg
    obtain rfl := List.mem_singleton.1 hk
    exact ⟨l, hcompile⟩
  · obtain ⟨k, hk, -⟩ | ⟨k, hk, hcompile'⟩ := hl'
    · exact absurd hk List.not_mem_nil
    · obtain rfl := List.mem_singleton.1 hk
      obtain rfl := Except.ok.inj (hcompile.symm.trans hcompile')
      obtain ⟨tokens, htokens, -⟩ := hl code
      exact ⟨tokens, htokens⟩

namespace Html.Page

/-- A page with a block of the interface definition language, whose code has the class of the given
language and may have others. -/
def pageInLanguages (languages : String) : List Char :=
  "<!DOCTYPE html><pre><code class=\"language-".toList ++ languages.toList ++
    "\">api A</code></pre>".toList

/-- Classes that name `idl` and another language. -/
def twoLanguages : List String :=
  ["idl other language-cobol", "cobol language-idl", " language-idl"]

/-- The place of the code on such a page. -/
def codePlace (languages : String) : PagePlace :=
  ⟨some (.bare "pre"), CodeBlock.codeTag languages, [.text "api A".toList]⟩

theorem read_pageInLanguages : ∀ languages ∈ twoLanguages,
    (read (pageInLanguages languages)).isOld = false ∧
      (read (pageInLanguages languages)).root = ofBlock [(codePlace languages).node] := by
  unfold pageInLanguages codePlace PagePlace.node CodeBlock.codeTag CodeBlock.languageClass
    Marks.languageStart
  repeat rw [String.toList_ofList]
  decide +kernel

/-- All places of such a page. -/
theorem places_pageInLanguages {languages : String} (h : languages ∈ twoLanguages) :
    (read (pageInLanguages languages)).root.places none =
      [⟨none, .bare "html", [.element (.bare "head") [], .element (.bare "body")
          [.element (.bare "pre") [(codePlace languages).node]]]⟩,
        ⟨some (.bare "html"), .bare "head", []⟩,
        ⟨some (.bare "html"), .bare "body", [.element (.bare "pre") [(codePlace languages).node]]⟩,
        ⟨some (.bare "body"), .bare "pre", [(codePlace languages).node]⟩] ++
      codePlace languages :: [] := by
  rw [(read_pageInLanguages languages h).2]
  simp [ofBlock, Node.places, Node.placesAll, codePlace, PagePlace.node]

/-- A block that names a known language first is found. -/
theorem findsEveryBlock_knownFirst :
    ((read (pageInLanguages "idl other language-cobol")).highlight Engine.idlOnly).2.fault = none ∧
      (read (pageInLanguages "idl other language-cobol")).FindsEveryBlock Engine.idlOnly := by
  have hend := Engine.fault_highlight_idlOnly (pageInLanguages "idl other language-cobol")
  refine ⟨hend, (findsEveryBlock_iff hend).2 fun q hq hnames => ?_⟩
  rw [places_pageInLanguages (by decide), List.mem_append, List.mem_singleton] at hq
  rw [(read_pageInLanguages _ (by decide)).1] at hnames
  rcases hq with hq | rfl
  · simp only [List.mem_cons, List.not_mem_nil, or_false] at hq
    rcases hq with rfl | rfl | rfl | rfl <;> exact absurd hnames (by decide)
  · exact ⟨"idl", by decide, by decide, by decide⟩

/-- **A known language that is not named first is not found,** neither behind an empty name nor
behind an unknown one. -/
theorem not_forall_findsEveryBlock : ¬ ∀ (text : List Char) (e : Engine),
    ((read text).highlight e).2.fault = none → (read text).FindsEveryBlock e := by
  intro hall
  have hend := Engine.fault_highlight_idlOnly (pageInLanguages " language-idl")
  have hmem : " language-idl" ∈ twoLanguages := by decide
  have hplaces := places_pageInLanguages hmem
  have hnew := (read_pageInLanguages _ hmem).1
  have hlit := (hall _ _ hend).lit _ _ _ hplaces (by rw [hnew]; decide)
  rw [lightsUp_litBefore_iff hend hplaces, hnew] at hlit
  exact absurd hlit (by decide)

end Html.Page
end DocHighlighter
