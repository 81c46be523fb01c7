/-
# Pages that have their buttons

Adding buttons to a page should give every highlighted block its own, and leave nothing to be done
(`Html.Page.GetsButtons`).  The two are the same: adding buttons once more does nothing exactly if
every highlighted block has its button (`Html.Page.addCopyButtons_eq_self_iff`).

The blocks are looked for before the page is changed, and a block that is put into a wrapper is a
copy of what was there: a block inside another one gets a wrapper where nobody sees it.  Where the
blocks have regular content, a page gets its buttons exactly if no block that is to get one is the
root or is inside another one (`Html.Page.getsButtons_iff`).  Not every page is like that
(`Html.Page.not_forall_getsButtons`).
-/

import DocHighlighter.Proofs.Html.Substituted
import DocHighlighter.Proofs.Render.Buttons
import DocHighlighter.Proofs.Render.Truthful

namespace DocHighlighter

open Html
open Fragment (wrapperTag)

namespace CopyButtons

variable {isOld : Bool} {parent : Option Tag}

/-! ## Blocks that are read again -/

/-- Whether a block is to get a button does not depend on how newlines are spelled. -/
theorem isBusy_unified (isOld : Bool) (parent : Option Tag) (tag : Tag) (children ns : List Node) :
    isBusy isOld ⟨parent.map Tag.unified, tag.unified, ns⟩ =
      isBusy isOld ⟨parent, tag, children⟩ := by
  have hparent : (parent.map Tag.unified).any (·.classes.contains Marks.wrapper) =
      parent.any (·.classes.contains Marks.wrapper) := by
    cases parent with
    | none => rfl
    | some tag => exact congrArg (·.contains Marks.wrapper) tag.classes_unified
  have hfits : blockSelector.fits isOld (parent.map Tag.unified) tag.unified =
      blockSelector.fits isOld parent tag := by
    have hname : tag.unified.name = tag.name := rfl
    simp [blockSelector, Selector.fits, Simple.fits, Tag.selectsClass_unified, hname]
  rw [isBusy, isBusy, hparent, hfits]

mutual

theorem any_isBusy_unified (isOld : Bool) (parent : Option Tag) : ∀ n : Node,
    (n.unified.places (parent.map Tag.unified)).any (isBusy isOld) =
      (n.places parent).any (isBusy isOld)
  | .text _ => rfl
  | .comment _ => rfl
  | .element tag children => by
    have ih := any_isBusy_unifiedAll isOld (some tag) children
    rw [Node.unified, Node.places, Node.places, List.any_cons, List.any_cons,
      isBusy_unified isOld parent tag children]
    exact congrArg _ ih

theorem any_isBusy_unifiedAll (isOld : Bool) (parent : Option Tag) : ∀ ns : List Node,
    (Node.placesAll (parent.map Tag.unified) (Node.unifiedAll ns)).any (isBusy isOld) =
      (Node.placesAll parent ns).any (isBusy isOld)
  | [] => rfl
  | n :: rest => by
    rw [Node.unifiedAll, Node.placesAll, Node.placesAll, List.any_append, List.any_append,
      any_isBusy_unified isOld parent n, any_isBusy_unifiedAll isOld parent rest]

end

theorem placesAll_withoutNewline (parent : Option Tag) (ns : List Node) :
    Node.placesAll parent (Node.withoutNewline ns) = Node.placesAll parent ns := by
  unfold Node.withoutNewline
  split <;> rfl

mutual

theorem any_isBusy_reread (isOld : Bool) (parent : Option Tag) : ∀ n : Node,
    (n.reread.places parent).any (isBusy isOld) = (n.places parent).any (isBusy isOld)
  | .text _ => rfl
  | .comment _ => rfl
  | .element tag children => by
    have ih := any_isBusy_rereadAll isOld (some tag) children
    have hinside : (Node.placesAll (some tag) (if tag.isOneOf preformattedNames then
        Node.withoutNewline (Node.rereadAll children) else Node.rereadAll children)) =
          Node.placesAll (some tag) (Node.rereadAll children) := by
      split
      · exact placesAll_withoutNewline ..
      · rfl
    rw [Node.reread, Node.places, Node.places, List.any_cons, List.any_cons, hinside, ih]
    rfl

theorem any_isBusy_rereadAll (isOld : Bool) (parent : Option Tag) : ∀ ns : List Node,
    (Node.placesAll parent (Node.rereadAll ns)).any (isBusy isOld) =
      (Node.placesAll parent ns).any (isBusy isOld)
  | [] => rfl
  | n :: rest => by
    rw [Node.rereadAll, Node.placesAll, Node.placesAll, List.any_append, List.any_append,
      any_isBusy_reread isOld parent n, any_isBusy_rereadAll isOld parent rest]

end

/-- In a wrapper, the blocks inside a block are left to get a button. -/
theorem any_isBusy_wrapped (isOld : Bool) (parent : Option Tag) (title : List Char)
    (q : PagePlace) : ((wrapped title q.node.unified.reread).places parent).any (isBusy isOld) =
      q.inside.any (isBusy isOld) := by
  have hwrapper : (some wrapperTag).map Tag.unified = some wrapperTag := by decide
  have hpre : ((q.node.unified.reread).places (some wrapperTag)).any (isBusy isOld) =
      q.inside.any (isBusy isOld) := by
    have hclass : wrapperTag.classes.contains Marks.wrapper = true := by decide
    have hown : isBusy isOld ⟨some wrapperTag, q.tag, q.children⟩ = false :=
      isBusy_eq_false_iff.2 fun _ => hclass
    have hunified := any_isBusy_unified isOld (some wrapperTag) q.node
    rw [hwrapper] at hunified
    rw [any_isBusy_reread, hunified, PagePlace.node, Node.places, List.any_cons, hown,
      Bool.false_or]
    rfl
  have hbutton : ((button title).places (some wrapperTag)).any (isBusy isOld) = false := by
    rw [List.any_eq_false]
    intro p hp
    rw [Bool.not_eq_true, isBusy_eq_false_iff]
    refine silent_of_name ?_
    rw [button, Node.places, Node.placesAll, Node.placesAll, List.append_nil] at hp
    rcases List.mem_cons.1 hp with rfl | hp
    · exact (Fragment.isPassedOver_button title).pre
    · exact (Fragment.isPassedOver_icon _ p hp).pre
  have hown : isBusy isOld ⟨parent, wrapperTag, [q.node.unified.reread, button title]⟩ = false :=
    isBusy_eq_false_iff.2 (silent_of_name Fragment.isPassedOver_wrapperTag.pre)
  have hplaces : (wrapped title q.node.unified.reread).places parent =
      ⟨parent, wrapperTag, [q.node.unified.reread, button title]⟩ ::
        (q.node.unified.reread.places (some wrapperTag) ++
          ((button title).places (some wrapperTag) ++ [])) := rfl
  rw [hplaces, List.any_cons, List.any_append, List.append_nil, hown, hpre, hbutton,
    Bool.false_or, Bool.or_false]

/-! ## A page with its wrappers -/

/-- The wrapper that a highlighted block without a button is put into, if its content is regular. -/
def wrapped? (isOld : Bool) (title : String) (q : PagePlace) : Option Node :=
  if isBusy isOld q then some (wrapped (readTitle title) q.node.unified.reread) else none

/-- Where the content of a block is regular, what a visit does depends on the block only. -/
theorem substitutes_wrapped {q : PagePlace} (title : String)
    (hregular : isBusy isOld q = true → q.node.Regular []) :
    Substitutes (visit isOld title) (wrapped? isOld title) (fun c => c.fault = none) q := by
  intro c hc
  rw [PagePlace.replacement, PagePlace.answer, wrapped?]
  cases hbusy : isBusy isOld q with
  | false =>
    rw [visit_of_silent (isBusy_eq_false_iff.1 hbusy)]
    exact ⟨rfl, hc⟩
  | true =>
    rw [visit_of_regular (hregular hbusy) title hbusy hc]
    exact ⟨rfl, hc⟩

mutual

/-- What is left to get a button are the blocks inside blocks. -/
theorem any_isBusy_substituted (isOld : Bool) (title : String) (parent : Option Tag) : ∀ n : Node,
    ((n.substituted (wrapped? isOld title) parent).places parent).any (isBusy isOld) =
      (n.places parent).any fun q => isBusy isOld q && q.inside.any (isBusy isOld)
  | .text _ => rfl
  | .comment _ => rfl
  | .element tag children => by
    let here : PagePlace := ⟨parent, tag, children⟩
    have hplaces : (Node.element tag children).places parent = here :: here.inside := rfl
    rw [hplaces, List.any_cons]
    cases hbusy : isBusy isOld here with
    | true =>
      have hwrapped : wrapped? isOld title here =
          some (wrapped (readTitle title) here.node.unified.reread) := by
        rw [wrapped?, if_pos hbusy]
      -- a block inside a block inside this one is a block inside this one
      have hdeeper : (here.inside.any fun q => isBusy isOld q && q.inside.any (isBusy isOld)) =
          true → here.inside.any (isBusy isOld) = true := by
        intro h
        obtain ⟨q, hq, hboth⟩ := List.any_eq_true.1 h
        exact List.any_eq_true.2 ⟨q, hq, (Bool.and_eq_true_iff.1 hboth).1⟩
      rw [Node.substituted_of_some hwrapped, any_isBusy_wrapped, Bool.true_and]
      cases hinside : here.inside.any (isBusy isOld) with
      | true => rfl
      | false =>
        rw [hinside] at hdeeper
        exact (Bool.eq_false_iff.2 fun h => Bool.false_ne_true (hdeeper h)).symm
    | false =>
      have hnone : wrapped? isOld title here = none := by
        rw [wrapped?, hbusy]
        rfl
      have hown : isBusy isOld ⟨parent, tag,
          Node.substitutedAll (wrapped? isOld title) (some tag) children⟩ = false := hbusy
      have ih := any_isBusy_substitutedAll isOld title (some tag) children
      rw [Node.substituted_of_none hnone, Node.places, List.any_cons, hown, ih]
      rfl

theorem any_isBusy_substitutedAll (isOld : Bool) (title : String) (parent : Option Tag) :
    ∀ ns : List Node,
    (Node.placesAll parent (Node.substitutedAll (wrapped? isOld title) parent ns)).any
        (isBusy isOld) =
      (Node.placesAll parent ns).any fun q => isBusy isOld q && q.inside.any (isBusy isOld)
  | [] => rfl
  | n :: rest => by
    rw [Node.substitutedAll, Node.placesAll, Node.placesAll, List.any_append, List.any_append,
      any_isBusy_substituted isOld title parent n,
      any_isBusy_substitutedAll isOld title parent rest]

end

end CopyButtons

/-! ## Pages -/

/-- A wrapper: a highlighted block and a button are all that is in it. -/
inductive Html.Node.IsWrapper (isOld : Bool) : Node → Prop
  | intro {tag pre button : Tag} {inside drawing : List Node}
      (htag : tag.classes.contains Marks.wrapper = true)
      (hpre : CopyButtons.blockSelector.fits isOld (some tag) pre = true)
      (hbutton : button.name = Marks.copyButton) :
      IsWrapper isOld (.element tag [.element pre inside, .element button drawing])

namespace CopyButtons

variable {isOld : Bool} {q : PagePlace}

/-- Where nothing was done, the answers are those at the start. -/
theorem Idle.eq {c : CopyButtons} (h : c.Idle) : c = {} := by
  obtain ⟨count, fault⟩ := c
  obtain ⟨rfl, rfl⟩ := h
  rfl

/-- A highlighted block stays one in its wrapper. -/
theorem isWrapper_wrapped (hbusy : isBusy isOld q = true) (title : List Char) :
    (wrapped title q.node.unified.reread).IsWrapper isOld := by
  have hfits : blockSelector.fits isOld q.parent q.tag = true := (Bool.and_eq_true_iff.1 hbusy).1
  have hpre : blockSelector.fits isOld (some wrapperTag) q.tag.unified = true := by
    rw [← hfits]
    have hname : q.tag.unified.name = q.tag.name := rfl
    simp [blockSelector, Selector.fits, Simple.fits, Tag.selectsClass_unified, hname]
  have hblock : q.node.unified.reread = .element q.tag.unified
      (if q.tag.unified.isOneOf preformattedNames then
        Node.withoutNewline (Node.rereadAll (Node.unifiedAll q.children))
      else Node.rereadAll (Node.unifiedAll q.children)) := rfl
  have hclass : wrapperTag.classes.contains Marks.wrapper = true := by decide
  rw [hblock]
  exact .intro hclass hpre rfl

end CopyButtons

namespace Html.Page

variable {page : Page}

/-- Every highlighted block of a page has its button: around it there is a wrapper. -/
def HasButtons (page : Page) : Prop :=
  ∀ q ∈ page.root.places none, CopyButtons.blockSelector.fits page.isOld q.parent q.tag = true →
    q.parent.any (·.classes.contains Marks.wrapper) = true

theorem hasButtons_iff :
    page.HasButtons ↔ (page.root.places none).any (CopyButtons.isBusy page.isOld) = false := by
  rw [List.any_eq_false]
  refine forall₂_congr fun q _ => ?_
  rw [Bool.not_eq_true]
  exact CopyButtons.isBusy_eq_false_iff.symm

/-- **Adding buttons once more does nothing** exactly if every block has its button. -/
theorem addCopyButtons_eq_self_iff (title : String) :
    page.addCopyButtons title = (page, {}) ↔ page.HasButtons := by
  have hrests := CopyButtons.rests page.isOld title
  have hidle := hrests.idle_rewrite_iff page {}
  rw [addCopyButtons]
  constructor
  · intro h
    refine (hidle.1 ?_).2
    rw [h]
    exact ⟨rfl, rfl⟩
  · intro h
    have hdone := hidle.2 ⟨⟨rfl, rfl⟩, h⟩
    exact Prod.ext (hrests.page_rewrite_eq hdone) hdone.eq

/-- **A page gets its buttons:** then every highlighted block has its own, what was put on the page
are wrappers of a block and a button, and once more nothing is left to be done. -/
structure GetsButtons (page : Page) (title : String) : Prop where
  fault : (page.addCopyButtons title).2.fault = none
  complete : (page.addCopyButtons title).1.HasButtons
  wrappers : ∀ q new, page.PutsButton title q new → new.IsWrapper page.isOld
  again : ∀ title', (page.addCopyButtons title).1.addCopyButtons title' =
    ((page.addCopyButtons title).1, {})

/-- The blocks that are to get a button stand apart: none of them is the root, and none is inside
another one. -/
def KeepsBlocksApart (page : Page) : Prop :=
  ∀ q ∈ page.root.places none, CopyButtons.isBusy page.isOld q = true →
    q.parent ≠ none ∧ ∀ q' ∈ q.inside, CopyButtons.isBusy page.isOld q' = false

section Regular

variable {text : List Char} (title : String)
  (hregular : ∀ q ∈ (read text).root.places none,
    CopyButtons.isBusy (read text).isOld q = true → q.node.Regular [])
include hregular

/-- Where the blocks have regular content, nothing goes wrong, and what is left to get a button is
the root and what is inside a block. -/
theorem addCopyButtons_of_regular : ((read text).addCopyButtons title).2.fault = none ∧
    (((read text).addCopyButtons title).1.HasButtons ↔ (read text).KeepsBlocksApart) := by
  obtain ⟨tag, children, hroot⟩ := exists_root text
  let here : PagePlace := ⟨none, tag, children⟩
  obtain ⟨hpage, hfault⟩ := rewrite_root_of_substitutes (s := ({} : CopyButtons)) hroot (by rfl)
    fun q hq => CopyButtons.substitutes_wrapped title (hregular q hq)
  have hafter : (((read text).addCopyButtons title).1.root.places none).any
      (CopyButtons.isBusy ((read text).addCopyButtons title).1.isOld) =
        (CopyButtons.isBusy (read text).isOld here || here.inside.any fun q =>
          CopyButtons.isBusy (read text).isOld q &&
            q.inside.any (CopyButtons.isBusy (read text).isOld)) := by
    rw [addCopyButtons, hpage]
    dsimp only
    rw [Node.places, List.any_cons, CopyButtons.any_isBusy_substitutedAll]
    rfl
  refine ⟨hfault, ?_⟩
  have hplaces : (read text).root.places none = here :: here.inside := by
    rw [hroot]
    rfl
  rw [hasButtons_iff, hafter, KeepsBlocksApart, hplaces, List.forall_mem_cons,
    Bool.or_eq_false_iff, List.any_eq_false]
  refine and_congr ⟨fun hidle hbusy => ?_, fun h => ?_⟩ (forall₂_congr fun q hq => ?_)
  · rw [hidle] at hbusy
    cases hbusy
  · exact Bool.eq_false_iff.2 fun hbusy => (h hbusy).1 rfl
  · have hparent : q.parent ≠ none := parent_ne_none_all hq
    simp [hparent]

end Regular

/-- **A page whose blocks have regular content gets its buttons** exactly if the blocks that are to
get one stand apart. -/
theorem getsButtons_iff (text : List Char) (title : String)
    (hregular : ∀ q ∈ (read text).root.places none,
      CopyButtons.isBusy (read text).isOld q = true → q.node.Regular []) :
    (read text).GetsButtons title ↔ (read text).KeepsBlocksApart := by
  obtain ⟨hfault, hcomplete⟩ := addCopyButtons_of_regular title hregular
  refine ⟨fun h => hcomplete.1 h.complete, fun h => ?_⟩
  have hall := hcomplete.2 h
  refine ⟨hfault, hall, fun q new hnew => ?_, fun title' =>
    (addCopyButtons_eq_self_iff title').2 hall⟩
  obtain ⟨hq, c, hexchange⟩ := hnew.exists_exchange?
  have hbusy := (CopyButtons.isBusy_of_exchange? hexchange).1
  rw [CopyButtons.eq_wrapped_of_exchange? (hregular q hq hbusy) hexchange]
  exact CopyButtons.isWrapper_wrapped hbusy _

/-! ## Two pages -/

/-- On the page with one block, that block is to get a button. -/
theorem eq_of_isBusy_litPage : ∀ q ∈ (read litPage).root.places none,
    CopyButtons.isBusy (read litPage).isOld q = true →
      q = ⟨some (.bare "body"), CodeBlock.litTag, litChildren⟩ := by
  intro q hq hbusy
  have hname : q.tag.name = "pre" := by
    by_contra hname
    rw [CopyButtons.isBusy_eq_false_iff.2 (CopyButtons.silent_of_name hname)] at hbusy
    cases hbusy
  rw [root_litPage] at hq
  simp only [ofLitBlock, litChildren, Node.places, Node.placesAll, List.append_nil,
    List.nil_append, List.cons_append, List.mem_cons, List.not_mem_nil, or_false] at hq
  obtain rfl | rfl | rfl | rfl | rfl | rfl := hq
  · exact absurd hname (by decide)
  · exact absurd hname (by decide)
  · exact absurd hname (by decide)
  · rfl
  · exact absurd hname (by decide)
  · exact absurd hname (by decide)

/-- A page with one block gets its button. -/
theorem getsButtons_litPage :
    (∀ q ∈ (read litPage).root.places none,
      CopyButtons.isBusy (read litPage).isOld q = true → q.node.Regular []) ∧
      (read litPage).GetsButtons "Copy" := by
  have hregular : ∀ q ∈ (read litPage).root.places none,
      CopyButtons.isBusy (read litPage).isOld q = true → q.node.Regular [] := by
    intro q hq hbusy
    rw [eq_of_isBusy_litPage q hq hbusy]
    exact regular_litChildren
  refine ⟨hregular, (getsButtons_iff litPage "Copy" hregular).2 fun q hq hbusy => ?_⟩
  rw [eq_of_isBusy_litPage q hq hbusy]
  refine ⟨Option.some_ne_none _, fun q' hq' => ?_⟩
  refine CopyButtons.isBusy_eq_false_iff.2 (CopyButtons.silent_of_name ?_)
  have hnames : (PagePlace.inside ⟨some (.bare "body"), CodeBlock.litTag, litChildren⟩).all
      (·.tag.name != "pre") = true := by decide
  simpa using List.all_eq_true.1 hnames q' hq'

/-- A page with a highlighted block inside another one. -/
def nestedBlockPage : List Char :=
  ("<!DOCTYPE html><pre class=\"highlight\">a<pre class=\"highlight\">b</pre></pre>").toList

/-- **Not every page gets its buttons:** a block inside another one is left without, as its wrapper
was put into what the outer block has given place to. -/
theorem not_forall_getsButtons :
    ¬ ∀ (text : List Char) (title : String), (read text).GetsButtons title := by
  intro h
  have hleft : (((read nestedBlockPage).addCopyButtons "Copy").1.root.places none).any
      (CopyButtons.isBusy ((read nestedBlockPage).addCopyButtons "Copy").1.isOld) = true := by
    unfold nestedBlockPage
    repeat rw [String.toList_ofList]
    decide +kernel
  have hnone := hasButtons_iff.1 (h nestedBlockPage "Copy").complete
  rw [hleft] at hnone
  cases hnone

end Html.Page
end DocHighlighter
