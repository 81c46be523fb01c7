/-
# Two tests for a mark

Whether an element has a class is asked in two ways.  The class list of its tag is split at
blanks in the wide sense and compared as it is written (`Tag.classes`); a selector splits at
markup blanks, and on an old page lets letters differ in case (`Tag.selectsClass`).
Highlighting asks the class list whether a block is marked, and copy buttons are put where a
selector finds the mark.

The class attribute is seen as its parts between markup blanks.  A mark that is one of them
is found in both ways.  Otherwise

| found by | exactly if |
|---|---|
| the class list | a part has a wide blank that sets the mark off (`Tag.Hides`) |
| a selector | the page is old, and a part is the mark in other case (`Tag.Respells`) |

So the tests agree on a page (`Page.MarksAgree`) exactly if, at each element, a mark that is
no part itself is either both hidden and respelled or neither (`Page.marksAgree_iff`).  On a
new page whose class attributes have markup blanks only they do
(`Page.marksAgree_of_markupBlanks`), but there are pages of both kinds where they do not
(`Page.not_forall_marksAgree`).
-/

import DocHighlighter.Block.CopyButton
import DocHighlighter.Block.Highlight
import DocHighlighter.Proofs.Html.Places
import DocHighlighter.Proofs.Text.Fields
import Mathlib.Tactic.ByContra

namespace DocHighlighter

open Html

theorem Text.isBlank_of_isMarkupBlank {c : Char} (h : Text.isMarkupBlank c = true) :
    Text.isBlank c = true := by
  simp only [Text.isMarkupBlank, Bool.or_eq_true, beq_iff_eq] at h
  rcases h with (((rfl | rfl) | rfl) | rfl) | rfl <;> decide

namespace Marks

/-- The classes that blocks are marked with. -/
def ofBlocks : List String :=
  [highlighted, wrapper]

/-- A mark is a class of its own: it is not empty and has no blanks. -/
def IsSolid (mark : String) : Prop :=
  mark.toList ≠ [] ∧ ∀ c ∈ mark.toList, Text.isBlank c = false

theorem isSolid_of_mem : ∀ mark ∈ ofBlocks, IsSolid mark := by
  have hall : ∀ mark ∈ ofBlocks,
      mark.toList ≠ [] ∧ (mark.toList.all fun c => !Text.isBlank c) = true := by
    decide
  intro mark hmark
  obtain ⟨hne, hblank⟩ := hall mark hmark
  exact ⟨hne, fun c hc => by simpa using List.all_eq_true.1 hblank c hc⟩

end Marks

/-! ## The tests on one tag -/

namespace Html.Tag

/-- A part of the class attribute is more than the mark, and has it between wide blanks. -/
def Hides (t : Tag) (mark : String) : Prop :=
  ∃ part ∈ t.markupClasses, part ≠ mark.toList ∧ mark.toList ∈ Text.fields Text.isBlank part

/-- A part of the class attribute is the mark with letters in other case. -/
def Respells (t : Tag) (mark : String) : Prop :=
  ∃ part ∈ t.markupClasses,
    part ≠ mark.toList ∧ part.map Char.toLower = mark.toList.map Char.toLower

variable {t : Tag} {mark : String}

/-- The class list splits the parts of the class attribute once more. -/
theorem mem_classes : mark ∈ t.classes ↔
    ∃ part ∈ t.markupClasses, mark.toList ∈ Text.fields Text.isBlank part := by
  have hlist : mark ∈ t.classes ↔
      mark.toList ∈ Text.fields Text.isBlank ((t.attribute? "class").getD []) := by
    refine List.mem_map.trans ⟨?_, fun h => ⟨_, h, String.ofList_toList⟩⟩
    rintro ⟨field, hfield, rfl⟩
    rwa [String.toList_ofList]
  rw [hlist, Text.fields_eq_flatMap fun _ => Text.isBlank_of_isMarkupBlank, List.mem_flatMap]
  rfl

theorem mem_classes_iff (h : Marks.IsSolid mark) :
    mark ∈ t.classes ↔ mark.toList ∈ t.markupClasses ∨ t.Hides mark := by
  rw [mem_classes]
  constructor
  · rintro ⟨part, hpart, hmark⟩
    by_cases hsame : part = mark.toList
    · exact .inl (hsame ▸ hpart)
    · exact .inr ⟨part, hpart, hsame, hmark⟩
  · rintro (hpart | ⟨part, hpart, -, hmark⟩)
    · exact ⟨_, hpart, by simp [Text.fields_of_forall_not h.1 h.2]⟩
    · exact ⟨part, hpart, hmark⟩

theorem selectsClass_iff {isOld : Bool} : t.selectsClass isOld mark = true ↔
    mark.toList ∈ t.markupClasses ∨ isOld = true ∧ t.Respells mark := by
  unfold selectsClass Respells
  cases isOld with
  | false => simp
  | true =>
    simp only [if_true, List.any_eq_true, beq_iff_eq, true_and]
    constructor
    · rintro ⟨part, hpart, hlower⟩
      by_cases hsame : part = mark.toList
      · exact .inl (hsame ▸ hpart)
      · exact .inr ⟨part, hpart, hsame, hlower⟩
    · rintro (hpart | ⟨part, hpart, -, hlower⟩)
      · exact ⟨_, hpart, rfl⟩
      · exact ⟨part, hpart, hlower⟩

/-- A mark is a part of the class attribute itself, or it is both hidden and respelled there, or
neither. -/
def ShowsMark (isOld : Bool) (t : Tag) (mark : String) : Prop :=
  mark.toList ∈ t.markupClasses ∨ (t.Hides mark ↔ isOld = true ∧ t.Respells mark)

/-- Where all blanks are markup blanks, no part hides a mark. -/
theorem not_hides {mark : String} (h : ∀ c ∈ (t.attribute? "class").getD [],
    Text.isBlank c = true → Text.isMarkupBlank c = true) : ¬ t.Hides mark := by
  rintro ⟨part, hpart, hne, hmark⟩
  have hsolid : ∀ c ∈ part, Text.isBlank c = false := by
    intro c hc
    obtain ⟨hmem, hnot⟩ := Text.mem_of_mem_fields hpart c hc
    exact Bool.eq_false_iff.2 fun hblank => absurd (h c hmem hblank) (by simp [hnot])
  by_cases hempty : part = []
  · subst hempty
    exact List.not_mem_nil hmark
  · rw [Text.fields_of_forall_not hempty hsolid, List.mem_singleton] at hmark
    exact hne hmark.symm

theorem mem_classes_iff_selectsClass {isOld : Bool} (h : Marks.IsSolid mark) :
    (mark ∈ t.classes ↔ t.selectsClass isOld mark = true) ↔ t.ShowsMark isOld mark := by
  rw [mem_classes_iff h, selectsClass_iff, ShowsMark]
  by_cases hpart : mark.toList ∈ t.markupClasses
  · simp only [hpart, true_or]
  · simp only [hpart, false_or]

end Html.Tag

/-! ## What the stages make of a block -/

namespace Highlighting

/-- Highlighting leaves a block alone whatever code it has, and without a warning. -/
def LeavesAlone (pre : Tag) : Prop :=
  ∀ isOld tag children h, visit isOld (some pre) tag children h = ({}, h)

/-- A code in a language that an engine without languages does not know. -/
def unknownCode : Tag :=
  ⟨"code", [⟨"class", "language-x".toList⟩], .page⟩

theorem languageOf_unknownCode : Marks.languageOf unknownCode = some "x" := by
  decide +kernel

/-- Blocks that are left alone whatever their code is are those marked in their class list. -/
theorem leavesAlone_iff {pre : Tag} (hpre : pre.name = "pre") :
    LeavesAlone pre ↔ Marks.highlighted ∈ pre.classes := by
  constructor
  · intro h
    by_contra hmark
    have hfits : codeSelector.fits false (some pre) unknownCode = true := by
      simp [codeSelector, unknownCode, Selector.fits, Simple.fits, hpre]
    -- An engine without languages has a warning for the code of a block that is not marked.
    have hlog := congrArg (fun r => r.2.log)
      (h false unknownCode [] { engine := { languages := [] } })
    simp [visit, hfits, hmark, languageOf_unknownCode, Engine.get?] at hlog
  · intro hmark isOld tag children h
    simp [visit, hmark]

end Highlighting

/-- A selector for a named block with a class finds the blocks that one for the class finds. -/
theorem CopyButtons.blockSelector_fits {isOld : Bool} {parent : Option Tag} {tag : Tag}
    (h : tag.name = "pre") : blockSelector.fits isOld parent tag =
      (Selector.ofClass Marks.highlighted).fits isOld parent tag := by
  simp [blockSelector, Selector.ofClass, Selector.fits, Simple.fits, h]

/-! ## The tests on a page -/

namespace Html.Page

/-- The two tests for the marks of blocks agree on a page, and so the blocks that highlighting
leaves alone are those that copy buttons are meant for. -/
structure MarksAgree (p : Page) : Prop where
  tests : ∀ q ∈ p.root.places none, ∀ mark ∈ Marks.ofBlocks,
    mark ∈ q.tag.classes ↔ (Selector.ofClass mark).fits p.isOld q.parent q.tag = true
  blocks : ∀ q ∈ p.root.places none, q.tag.name = "pre" →
    (Highlighting.LeavesAlone q.tag ↔
      CopyButtons.blockSelector.fits p.isOld q.parent q.tag = true)

theorem test_iff {isOld : Bool} {q : PagePlace} {mark : String} (hmark : mark ∈ Marks.ofBlocks) :
    (mark ∈ q.tag.classes ↔ (Selector.ofClass mark).fits isOld q.parent q.tag = true) ↔
      q.tag.ShowsMark isOld mark := by
  rw [← Tag.mem_classes_iff_selectsClass (Marks.isSolid_of_mem mark hmark)]
  simp [Selector.fits, Selector.ofClass, Simple.fits]

/-- What the stages make of a block follows from the tests. -/
theorem marksAgree_of_showsMark {p : Page}
    (h : ∀ q ∈ p.root.places none, ∀ mark ∈ Marks.ofBlocks, q.tag.ShowsMark p.isOld mark) :
    p.MarksAgree := by
  have htests : ∀ q ∈ p.root.places none, ∀ mark ∈ Marks.ofBlocks,
      (mark ∈ q.tag.classes ↔ (Selector.ofClass mark).fits p.isOld q.parent q.tag = true) :=
    fun q hq mark hmark => (test_iff hmark).2 (h q hq mark hmark)
  refine ⟨htests, fun q hq hpre => ?_⟩
  rw [Highlighting.leavesAlone_iff hpre, CopyButtons.blockSelector_fits hpre]
  exact htests q hq _ List.mem_cons_self

/-- **The two tests for a mark agree** on a page exactly if no element has the mark only behind a
wide blank or only in other case. -/
theorem marksAgree_iff (p : Page) : p.MarksAgree ↔
    ∀ q ∈ p.root.places none, ∀ mark ∈ Marks.ofBlocks, q.tag.ShowsMark p.isOld mark :=
  ⟨fun h q hq mark hmark => (test_iff hmark).1 (h.tests q hq mark hmark), marksAgree_of_showsMark⟩

/-- On a new page whose class attributes have markup blanks only, the two tests agree. -/
theorem marksAgree_of_markupBlanks {p : Page} (hnew : p.isOld = false)
    (h : ∀ q ∈ p.root.places none, ∀ c ∈ (q.tag.attribute? "class").getD [],
      Text.isBlank c = true → Text.isMarkupBlank c = true) : p.MarksAgree := by
  refine marksAgree_of_showsMark fun q hq mark _ => .inr ?_
  simp only [hnew, Bool.false_eq_true, false_and, iff_false]
  exact Tag.not_hides (h q hq)

/-- A page with a block whose mark is set off by a blank that is no markup blank. -/
def hiddenMark : List Char :=
  ("<!DOCTYPE html><pre class=\"highlight\u00a0x\">" ++
    "<code class=\"language-idl\">api A</code></pre>").toList

/-- A page of the old kind with a block whose mark begins with a capital. -/
def respelledMark : List Char :=
  "<pre class=\"Highlight\"><code class=\"language-idl\">api A</code></pre>".toList

/-- **The two tests do not always agree**, neither on new pages nor on old ones. -/
theorem not_forall_marksAgree :
    (¬ ∀ text, (read text).isOld = false → (read text).MarksAgree) ∧
      ¬ ∀ text, (read text).isOld = true → (read text).MarksAgree := by
  constructor
  · intro h
    have hpage : (read hiddenMark).isOld = false ∧
        ∃ q ∈ (read hiddenMark).root.places none, Marks.highlighted ∈ q.tag.classes ∧
          (Selector.ofClass Marks.highlighted).fits false q.parent q.tag = false := by
      unfold hiddenMark
      rw [String.toList_append]
      repeat rw [String.toList_ofList]
      decide +kernel
    obtain ⟨hnew, q, hq, hlisted, hfits⟩ := hpage
    have htest := (h hiddenMark hnew).tests q hq _ List.mem_cons_self
    rw [hnew, hfits] at htest
    exact absurd (htest.1 hlisted) Bool.false_ne_true
  · intro h
    have hpage : (read respelledMark).isOld = true ∧
        ∃ q ∈ (read respelledMark).root.places none, Marks.highlighted ∉ q.tag.classes ∧
          (Selector.ofClass Marks.highlighted).fits true q.parent q.tag = true := by
      unfold respelledMark
      rw [String.toList_ofList]
      decide +kernel
    obtain ⟨hold, q, hq, hlisted, hfits⟩ := hpage
    have htest := (h respelledMark hold).tests q hq _ List.mem_cons_self
    rw [hold] at htest
    exact hlisted (htest.2 hfits)

end Html.Page

end DocHighlighter
