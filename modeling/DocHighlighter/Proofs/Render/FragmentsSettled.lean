/-
# Rendering a page of fragments again

On a page as Doxygen makes it no fragment stands inside another, and no block either.  So
such a page is settled once it is rendered (`isSettled_rendered`), and stays so
(`staysRendered_textOf`): what is left of the fragments has no known tag, all code stands
in marked blocks, and these in their wrappers if the page has the script.

Where the elements of a rendered page stand is said case by case (`Fragment.PlaceOf`), and
each stage passes over every case.
-/

import DocHighlighter.Proofs.Render.Fragments
import DocHighlighter.Proofs.Render.Settled

namespace DocHighlighter

open Html
open DoxygenPage (contentsTag)

namespace Fragment

variable {f : Fragment} {withScript : Bool} {spans : CodeBlock → List Node} {title : List Char}

/-- The tag of a wrapper. -/
def wrapperTag : Tag :=
  ⟨"div", [⟨"class", Marks.wrapper.toList⟩], .page⟩

/-- No stage looks at elements with such a tag. -/
structure IsPassedOver (tag : Tag) : Prop where
  fragment : tag.selectsClass false Marks.fragment = false
  code : tag.name ≠ "code"
  pre : tag.name ≠ "pre"

/-- What stands at a place of a rendered fragment: itself if its tag is not known, a lit block,
its code, or what no stage looks at. -/
inductive PlaceOf (withScript : Bool) (f : Fragment) : PagePlace → Prop
  | element {parent : Option Tag} (hclass : f.classify? = none) :
      PlaceOf withScript f ⟨parent, elementTag, f.lines.map lineElement⟩
  | lit {parent : Option Tag} {children : List Node}
      (hparent : withScript = true → parent = some wrapperTag) :
      PlaceOf withScript f ⟨parent, CodeBlock.litTag, children⟩
  | code {language : String} {children : List Node} (hl : language ∈ CodeBlock.knownLanguages) :
      PlaceOf withScript f ⟨some CodeBlock.litTag, CodeBlock.codeTag language, children⟩
  | other {q : PagePlace} (htag : IsPassedOver q.tag) : PlaceOf withScript f q

theorem selectsClass_of_none {tag : Tag} {name : String} (h : tag.attribute? "class" = none) :
    tag.selectsClass false name = false := by
  have hclasses : tag.markupClasses = [] := by
    rw [Tag.markupClasses, h]
    rfl
  simp [Tag.selectsClass, hclasses]

theorem isPassedOver_lineTag : IsPassedOver lineTag :=
  ⟨by decide, by decide, by decide⟩

theorem isPassedOver_wrapperTag : IsPassedOver wrapperTag :=
  ⟨by decide, by decide, by decide⟩

theorem isPassedOver_button (title : List Char) :
    IsPassedOver ⟨Marks.copyButton, [⟨"title", title⟩], .page⟩ :=
  ⟨selectsClass_of_none rfl, (by decide : Marks.copyButton ≠ "code"),
    (by decide : Marks.copyButton ≠ "pre")⟩

theorem isPassedOver_spanTag (kind : Kind) : IsPassedOver kind.spanTag := by
  refine ⟨?_, (by decide : "span" ≠ "code"), (by decide : "span" ≠ "pre")⟩
  cases kind <;> decide

theorem isPassedOver_icon (parent : Option Tag) : ∀ q ∈ icon.places parent, IsPassedOver q.tag := by
  have hclass : (Foreign.tag .drawing "svg" iconTag.readAttributes).attribute? "class" = none ∧
      ∀ t ∈ iconShapes,
        (Foreign.tag .drawing "path" t.readAttributes).attribute? "class" = none := by
    unfold iconTag iconShapes
    simp only [String.toList_append]
    repeat rw [String.toList_ofList]
    decide +kernel
  intro q hq
  have hname := name_of_mem_icon parent q hq
  refine ⟨selectsClass_of_none ?_, ?_, ?_⟩
  · rcases tag_of_mem_icon parent q hq with htag | ⟨t, ht, htag⟩
    · rw [htag]
      exact hclass.1
    · rw [htag]
      exact hclass.2 t ht
  · rcases hname with hname | hname <;> rw [hname] <;> decide
  · rcases hname with hname | hname <;> rw [hname] <;> decide

theorem placeOf_spans (f : Fragment) {ns : List Node} (hns : ∀ n ∈ ns, n.IsSpan)
    (parent : Option Tag) : ∀ q ∈ Node.placesAll parent ns, PlaceOf withScript f q := by
  intro q hq
  rw [Node.placesAll_eq_flatMap] at hq
  obtain ⟨n, hn, hq⟩ := List.mem_flatMap.1 hq
  cases hns n hn with
  | text => exact absurd hq List.not_mem_nil
  | @span kind s hs =>
    rcases List.mem_cons.1 hq with rfl | hq
    · exact .other (isPassedOver_spanTag kind)
    · exact absurd hq List.not_mem_nil

theorem placeOf_litBlock (f : Fragment) {language : String}
    (hl : language ∈ CodeBlock.knownLanguages) {ns : List Node} (hns : ∀ n ∈ ns, n.IsSpan)
    {parent : Option Tag} (hparent : withScript = true → parent = some wrapperTag) :
    ∀ q ∈ (CodeBlock.lit language ns).places parent, PlaceOf withScript f q := by
  intro q hq
  rw [CodeBlock.lit, Node.places, Node.placesAll, Node.placesAll, Node.places,
    List.append_nil] at hq
  rcases List.mem_cons.1 hq with rfl | hq
  · exact .lit hparent
  · rcases List.mem_cons.1 hq with rfl | hq
    · exact .code hl
    · exact placeOf_spans f hns _ q hq

/-- The places of a rendered fragment are as described. -/
theorem placeOf_rendered (hspans : f.SpansWritten spans) (parent : Option Tag) :
    ∀ q ∈ (f.rendered withScript title spans).places parent, PlaceOf withScript f q := by
  intro q hq
  unfold rendered buttoned lit at hq
  cases hclass : f.classify? with
  | none =>
    simp only [hclass, ite_self] at hq
    rw [places_element] at hq
    rcases List.mem_cons.1 hq with rfl | hq
    · exact .element hclass
    · obtain ⟨line, -, rfl⟩ := List.mem_map.1 hq
      exact .other isPassedOver_lineTag
  | some b =>
    have hl := (of_classify hclass).1
    have hspan := (hspans b hclass).2
    simp only [hclass] at hq
    cases withScript with
    | false => exact placeOf_litBlock f hl hspan (by simp) q hq
    | true =>
      simp only [if_true, wrapped, Node.places, Node.placesAll, List.append_nil] at hq
      rcases List.mem_cons.1 hq with rfl | hq
      · exact .other isPassedOver_wrapperTag
      rcases List.mem_append.1 hq with hq | hq
      · exact placeOf_litBlock f hl hspan (fun _ => rfl) q hq
      rcases List.mem_cons.1 hq with rfl | hq
      · exact .other (isPassedOver_button title)
      · exact .other (isPassedOver_icon _ q hq)

/-! ## The stages pass over them -/

/-- Every stage passes over the places of a rendered fragment; the last one does if there is the
script, and is left out if not. -/
theorem PlaceOf.silent {q : PagePlace} (h : PlaceOf withScript f q) :
    Classification.Silent false q ∧ (∀ e, Highlighting.Silent false e q) ∧
      (withScript = true → CopyButtons.Silent false q) := by
  cases h with
  | @element parent hclass =>
    refine ⟨fun _ => ?_, Highlighting.silent_of_name (by decide : "div" ≠ "code"),
      fun _ => CopyButtons.silent_of_name (by decide : "div" ≠ "pre")⟩
    rw [ofElement_element]
    exact hclass
  | @lit parent children hparent =>
    have hclass : CodeBlock.litTag.selectsClass false Marks.fragment = false := by decide
    have hwrapper : wrapperTag.classes.contains Marks.wrapper = true := by decide
    refine ⟨Classification.silent_of_class hclass, Highlighting.silent_of_name (by decide : "pre" ≠ "code"),
      fun hscript _ => ?_⟩
    rw [hparent hscript]
    exact hwrapper
  | @code language children hl =>
    have hclass : ∀ language ∈ CodeBlock.knownLanguages,
        (CodeBlock.codeTag language).selectsClass false Marks.fragment = false := by
      decide
    have hmark : CodeBlock.litTag.classes.contains Marks.highlighted = true := by decide
    refine ⟨Classification.silent_of_class (hclass language hl), fun e pre hpre _ hbare => ?_,
      fun _ => CopyButtons.silent_of_name (by decide : "code" ≠ "pre")⟩
    obtain rfl := Option.some.inj hpre
    rw [hmark] at hbare
    exact absurd hbare (by simp)
  | other htag =>
    exact ⟨Classification.silent_of_class htag.fragment, Highlighting.silent_of_name htag.code,
      fun _ => CopyButtons.silent_of_name htag.pre⟩

end Fragment

namespace DoxygenPage

open Fragment (blocksOf)

variable {fragments : List Fragment} {spans : CodeBlock → List Node}

/-- What holds outside the contents of a page, and in the place of each fragment, holds everywhere
on the page. -/
theorem forall_places_page {withScript : Bool} {nodes : Fragment → Node} {P : PagePlace → Prop}
    (hframe : ∀ q, q.tag ∈ frameTags withScript → P q)
    (hnodes : ∀ f ∈ fragments, ∀ q ∈ (nodes f).places (some contentsTag), P q) :
    ∀ q ∈ (page withScript (fragments.map nodes)).root.places none, P q := by
  obtain ⟨frame, htags, hplaces⟩ := places_page withScript (fragments.map nodes)
  intro q hq
  rw [hplaces, Node.placesAll_eq_flatMap] at hq
  rcases List.mem_append.1 hq with hq | hq
  · exact hframe q (htags ▸ List.mem_map_of_mem hq)
  · obtain ⟨n, hn, hq⟩ := List.mem_flatMap.1 hq
    obtain ⟨f, hf, rfl⟩ := List.mem_map.1 hn
    exact hnodes f hf q hq

/-- No stage looks at what stands outside the contents of a page. -/
theorem isPassedOver_of_mem_frameTags (withScript : Bool) :
    ∀ tag ∈ frameTags withScript, Fragment.IsPassedOver tag := by
  have htags : ∀ tag ∈ frameTags withScript,
      tag.selectsClass false Marks.fragment = false ∧ tag.name ≠ "code" ∧ tag.name ≠ "pre" := by
    cases withScript <;> decide
  exact fun tag htag => ⟨(htags tag htag).1, (htags tag htag).2.1, (htags tag htag).2.2⟩

/-- **A rendered page is settled.** -/
theorem isSettled_rendered (withScript : Bool) {title : List Char}
    (hspans : ∀ f ∈ fragments, f.SpansWritten spans) (host : Option Host) :
    (page withScript (fragments.map (Fragment.rendered withScript title spans))).IsSettled
      host {} := by
  have hframe := isPassedOver_of_mem_frameTags withScript
  have hsilent : ∀ q ∈ (page withScript (fragments.map
      (Fragment.rendered withScript title spans))).root.places none,
      Classification.Silent false q ∧ (∀ e, Highlighting.Silent false e q) ∧
        (withScript = true → CopyButtons.Silent false q) := by
    refine forall_places_page (fun q hq => ?_) fun f hf q hq => ?_
    · exact Fragment.PlaceOf.silent (f := ⟨[]⟩) (.other (hframe q.tag hq))
    · exact (Fragment.placeOf_rendered (hspans f hf) _ q hq).silent
  refine ⟨fun q hq => (hsilent q hq).1, fun h _ _ q hq => (hsilent q hq).2.1 h.engine,
    fun hoffers q hq => (hsilent q hq).2.2 ?_⟩
  cases withScript with
  | true => rfl
  | false =>
    rw [show (fragments.map (Fragment.rendered false title spans)) =
      fragments.map (Fragment.lit spans) from rfl, offersCopying_page false hspans] at hoffers
    exact absurd hoffers (by simp)

/-- **Rendering settles the pages it is for**: a page as Doxygen makes it, with any fragments,
stays as it is rendered by a full engine. -/
theorem staysRendered_textOf {e : Engine} (he : e.IsFull) (withScript : Bool)
    (hplain : ∀ f ∈ fragments, f.IsPlain)
    (hbase : ∀ b ∈ blocksOf fragments, ∀ r, Language.baseOf b.language = some r →
      r.IsLossless (Preparation.keepingLines.apply b.body)) :
    StaysRendered (textOf withScript fragments) (some { engine := e }) {} := by
  obtain ⟨spans, hspans⟩ := exists_spansOf hplain hbase
  obtain ⟨html, e', hrender, hpage⟩ := exists_renderText withScript he hplain hspans
  intro html' report hresult
  rw [hrender] at hresult
  obtain ⟨rfl, -⟩ := Prod.mk.inj (Except.ok.inj hresult)
  rw [renderText_again_iff, hpage]
  exact isSettled_rendered withScript (fun f hf => SpansOf.written (hspans f hf)) _

end DoxygenPage
end DocHighlighter
