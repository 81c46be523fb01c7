/-
# Classifying is substituting

Fragments are classified one after the other while the page changes under the work.  All the same
the page becomes a function of what it was (`Page.classify_eq_substituted`): every fragment with a
known tag that is in no other such fragment gives place to the element that is read from the markup
of its code block, and the rest stays.

| statement | says |
|---|---|
| `CodeBlock.elementFor_of_nulFree` | the markup of a block of a parsed page reads as an element |
| `Classification.substitutes` | what a visit puts in the place of an element depends on it only |
| `Page.classify_snd` | the blocks that are found are those of all fragments with known tags |
-/

import DocHighlighter.Proofs.Block.Stages
import DocHighlighter.Proofs.Html.Sound
import DocHighlighter.Proofs.Html.Substituted
import DocHighlighter.Proofs.Text.Newlines

namespace DocHighlighter

open Html
open Spans (IsPlainChar)

/-! ## The element of a block -/

namespace CodeBlock

variable {language : String}

/-- What the markup of a block begins with. -/
def markupStart (language : String) : List Char :=
  "<pre><code class=\"".toList ++ Marks.languageStart.toList ++ language.toList ++ "\">".toList

theorem return_not_mem_markupStart (hl : language ∈ knownLanguages) :
    '\r' ∉ markupStart language := by
  have hclass := not_mem_languageClass hl '\r' (by decide)
  intro h
  rcases List.mem_append.1 h with h | h
  · rcases List.mem_append.1 h with h | h
    · rcases List.mem_append.1 h with h | h
      · exact absurd h (by decide)
      · exact hclass (List.mem_append_left _ h)
    · exact hclass (List.mem_append_right _ h)
  · exact absurd h (by decide)

theorem unifyNewlines_markup {b : CodeBlock} (hl : b.language ∈ knownLanguages) :
    Text.unifyNewlines b.markup =
      ({ b with body := Text.unifyNewlines b.body } : CodeBlock).markup := by
  have hmarkup : ∀ body, ({ b with body := body } : CodeBlock).markup =
      markupStart b.language ++ (Text.escapeText body ++ "</code></pre>".toList) :=
    fun body => List.append_assoc ..
  rw [hmarkup (Text.unifyNewlines b.body), show b.markup = _ from hmarkup b.body,
    Text.unifyNewlines_append_left (return_not_mem_markupStart hl),
    Text.unifyNewlines_append _ (by decide), Text.unifyNewlines_escapeText,
    Text.unifyNewlines_of_not_mem (by decide : '\r' ∉ "</code></pre>".toList)]

/-- **The markup of a block without U+0000 reads as an element:** a `pre` with the code of the
block, its newlines in one spelling. -/
theorem elementFor_of_nulFree {b : CodeBlock} (hl : b.language ∈ knownLanguages)
    (hbody : '\x00' ∉ b.body) :
    Classification.elementFor b =
      .ok ({ b with body := Text.unifyNewlines b.body } : CodeBlock).plain := by
  have hplain : ∀ c ∈ Text.unifyNewlines b.body, IsPlainChar c := by
    intro c hc
    obtain ⟨hreturn, hmem⟩ := Text.mem_of_mem_unifyNewlines hc
    refine ⟨?_, hreturn⟩
    rintro rfl
    exact hbody (hmem.resolve_right (by decide))
  have hread := elementFor_eq (b := { b with body := Text.unifyNewlines b.body }) hl hplain
  rw [Classification.elementFor, elementOf, ← unifyNewlines_markup hl, Page.read_unifyNewlines]
    at hread
  rw [Classification.elementFor, elementOf]
  split
  · next n hfirst => rwa [hfirst] at hread
  · next hnone =>
    rw [hnone] at hread
    exact absurd hread (by simp)

end CodeBlock

/-! ## What a fragment gives place to -/

namespace Classification

variable {isOld : Bool} {q : PagePlace} {c : Classification} {b : CodeBlock}

/-- The code block of an element that is a fragment with a known tag. -/
def block? (isOld : Bool) (q : PagePlace) : Option CodeBlock :=
  if (Selector.ofClass Marks.fragment).fits isOld q.parent q.tag then
    (Fragment.ofElement isOld q.tag q.children).classify?
  else none

/-- The element that is read from the markup of a fragment's code block. -/
def substitute? (isOld : Bool) (q : PagePlace) : Option Node :=
  (block? isOld q).bind fun b => (elementFor b).toOption

theorem block?_eq_none_iff : block? isOld q = none ↔ Silent isOld q := by
  rw [block?, Silent, ite_eq_right_iff]

theorem block?_of_class (h : q.tag.selectsClass isOld Marks.fragment = false) :
    block? isOld q = none :=
  block?_eq_none_iff.2 (silent_of_class h)

/-- The code of a fragment of a page without U+0000 has none, and its language is known. -/
theorem of_block? (hfree : q.node.NulFree) (hb : block? isOld q = some b) :
    b.language ∈ CodeBlock.knownLanguages ∧ '\x00' ∉ b.body := by
  obtain ⟨-, hclass⟩ := ite_eq_iff.1 hb |>.resolve_right (by simp)
  obtain ⟨hl, hbody⟩ := Fragment.of_classify hclass
  refine ⟨hl, fun hmem => ?_⟩
  rw [hbody] at hmem
  obtain ⟨line, hline, hnul⟩ := List.mem_flatMap.1 (Text.mem_of_mem_stripEnd hmem)
  have hline := List.mem_of_mem_drop hline
  rw [Fragment.ofElement, selectIn_eq_filter, List.map_map] at hline
  obtain ⟨p, hp, rfl⟩ := List.mem_map.1 hline
  rcases List.mem_append.1 hnul with hnul | hnul
  · exact (hfree.of_mem_places (List.mem_filter.1 hp).1).not_mem_textContent hnul
  · exact absurd (List.mem_singleton.1 hnul) (by decide)

theorem elementFor_of_block? (hfree : q.node.NulFree) (hb : block? isOld q = some b) :
    ∃ new, elementFor b = .ok new ∧ substitute? isOld q = some new := by
  obtain ⟨hl, hbody⟩ := of_block? hfree hb
  have hnew := CodeBlock.elementFor_of_nulFree hl hbody
  exact ⟨_, hnew, by rw [substitute?, hb, Option.bind_some, hnew, Except.toOption]⟩

/-- A visit without a fault so far puts the element of its code block in the place of a fragment. -/
theorem visit_of_block? (hc : c.fault = none) (hb : block? isOld q = some b) {new : Node}
    (hnew : elementFor b = .ok new) :
    visit isOld q.parent q.tag q.children c =
      ({ own := some new }, { c with blocks := c.blocks ++ [b] }) := by
  obtain ⟨hfits, hclass⟩ := ite_eq_iff.1 hb |>.resolve_right (by simp)
  simp [visit, hc, hfits, hclass, hnew]

/-- It is a fault if there is no such element. -/
theorem visit_of_error (hc : c.fault = none) (hb : block? isOld q = some b) {fault : NoElement}
    (hnew : elementFor b = .error fault) :
    visit isOld q.parent q.tag q.children c = ({}, { c with fault := some fault }) := by
  obtain ⟨hfits, hclass⟩ := ite_eq_iff.1 hb |>.resolve_right (by simp)
  simp [visit, hc, hfits, hclass, hnew]

/-- **What a visit does depends on the element only:** it puts the substitute, if there is one, in
its place, and notes the block. -/
theorem visit_of_nulFree (hfree : q.node.NulFree) (hc : c.fault = none) :
    visit isOld q.parent q.tag q.children c =
      ({ own := substitute? isOld q },
        { c with blocks := c.blocks ++ (block? isOld q).toList }) := by
  cases hb : block? isOld q with
  | none =>
    rw [visit_of_silent (block?_eq_none_iff.1 hb), substitute?, hb, Option.bind_none,
      Option.toList_none, List.append_nil]
  | some b =>
    obtain ⟨new, hnew, hsubstitute⟩ := elementFor_of_block? hfree hb
    rw [visit_of_block? hc hb hnew, hsubstitute, Option.toList_some]

theorem substitutes (hfree : q.node.NulFree) :
    Substitutes (visit isOld) (substitute? isOld) (fun c => c.fault = none) q := by
  intro c hc
  rw [PagePlace.replacement, PagePlace.answer, visit_of_nulFree hfree hc]
  exact ⟨rfl, hc⟩

/-- Going through places notes the blocks of all of them. -/
theorem foldl_answer {places : List PagePlace} (hfree : ∀ q ∈ places, q.node.NulFree)
    (hc : c.fault = none) :
    places.foldl (PagePlace.answer (visit isOld)) c =
      { c with blocks := c.blocks ++ places.filterMap (block? isOld) } := by
  induction places generalizing c with
  | nil => simp
  | cons q rest ih =>
    obtain ⟨hq, hrest⟩ := List.forall_mem_cons.1 hfree
    have hstep : PagePlace.answer (visit isOld) c q =
        { c with blocks := c.blocks ++ (block? isOld q).toList } := by
      rw [PagePlace.answer, visit_of_nulFree hq hc]
    have hnext := ih (c := { c with blocks := c.blocks ++ (block? isOld q).toList }) hrest hc
    rw [List.foldl_cons, hstep, hnext]
    cases hb : block? isOld q <;> simp [hb]

end Classification

/-! ## Pages -/

namespace Html.Page

/-- **The blocks that are found are those of all fragments with known tags,** also of those inside
others, and nothing goes wrong. -/
theorem classify_snd (text : List Char) :
    (Page.read text).classify.2 =
      { blocks := ((Page.read text).root.places none).filterMap
          (Classification.block? (Page.read text).isOld) } := by
  rw [classify, rewrite_answers, Classification.foldl_answer
    (fun q hq => (nulFree_read text).of_mem_places hq) rfl]
  rfl

/-- **Classifying is substituting.** If the root is no fragment, the page is the one that it was, in
which every fragment with a known tag that is in no other such fragment has given place to the
element that is read from the markup of its code block.  There is such an element for each. -/
theorem classify_eq_substituted (text : List Char)
    (hroot : ∀ tag ∈ (Page.read text).root.tag?,
      tag.selectsClass (Page.read text).isOld Marks.fragment = false) :
    (Page.read text).classify.1 =
        { Page.read text with
          root := (Page.read text).root.substituted
            (Classification.substitute? (Page.read text).isOld) none } ∧
      (Page.read text).classify.2.fault = none ∧
      ∀ q ∈ (Page.read text).root.places none,
        ∀ b, Classification.block? (Page.read text).isOld q = some b →
          ∃ new, Classification.elementFor b = .ok new ∧
            Classification.substitute? (Page.read text).isOld q = some new := by
  have hfree : ∀ q ∈ (Page.read text).root.places none, q.node.NulFree :=
    fun q hq => (nulFree_read text).of_mem_places hq
  have hnone : ∀ tag children, (Page.read text).root = .element tag children →
      Classification.substitute? (Page.read text).isOld ⟨none, tag, children⟩ = none := by
    intro tag children heq
    have hblock := Classification.block?_of_class (q := ⟨none, tag, children⟩)
      (hroot tag (by rw [heq]; rfl))
    rw [Classification.substitute?, hblock, Option.bind_none]
  obtain ⟨hpage, hfault⟩ := rewrite_of_substitutes (s := ({} : Classification)) (by rfl)
    (fun q hq => Classification.substitutes (hfree q hq)) hnone
  exact ⟨hpage, hfault, fun q hq b hb => Classification.elementFor_of_block? (hfree q hq) hb⟩

/-- A fragment in a fragment with a known tag, and one in a fragment without. -/
def fragmentsInFragments : List Char :=
  ("<!DOCTYPE html><div class=\"fragment\"><div class=\"line\">@idl</div><div class=\"line\">a" ++
    "<div class=\"fragment\"><div class=\"line\">@c</div></div></div></div>b" ++
    "<div class=\"fragment\"><div class=\"line\">@pascal" ++
    "<div class=\"fragment\"><div class=\"line\">@json</div></div></div></div>").toList

/-- The first one gives place to its block with all that is in it; of the second one only what is
inside it gives place. -/
theorem classify_fragmentsInFragments :
    (∀ tag ∈ (Page.read fragmentsInFragments).root.tag?,
      tag.selectsClass (Page.read fragmentsInFragments).isOld Marks.fragment = false) ∧
    (Page.read fragmentsInFragments).classify.1.markup =
      ("<!DOCTYPE html><html><head></head><body>" ++
        "<pre><code class=\"language-idl\">a@c\n@c</code></pre>b" ++
        "<div class=\"fragment\"><div class=\"line\">@pascal" ++
        "<pre><code class=\"language-json\"></code></pre></div></div></body></html>").toList := by
  have hroot : ∀ tag ∈ (Page.read fragmentsInFragments).root.tag?,
      tag.selectsClass (Page.read fragmentsInFragments).isOld Marks.fragment = false := by
    unfold fragmentsInFragments
    simp only [String.toList_append]
    repeat rw [String.toList_ofList]
    decide +kernel
  refine ⟨hroot, ?_⟩
  rw [(classify_eq_substituted fragmentsInFragments hroot).1]
  unfold fragmentsInFragments
  simp only [String.toList_append]
  repeat rw [String.toList_ofList]
  decide +kernel

end Html.Page
end DocHighlighter
