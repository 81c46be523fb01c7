/-
# What the stages count

Each stage counts the elements that it has something to do with (`isBusy`), and puts something on
the page for them, unless it has gone wrong: in the place of a fragment or a highlighted block, and
in the place of the element around a code.

| stage | decides on | counts |
|---|---|---|
| classify | the element | `Classification.counts` |
| highlight | the element around it | `Highlighting.counts` |
| copy buttons | the element | `CopyButtons.counts` |

Once a stage has gone wrong it does nothing any more, so a stage at whose end nothing is wrong was
never wrong.
-/

import DocHighlighter.Proofs.Block.Classified
import DocHighlighter.Proofs.Block.Settled
import DocHighlighter.Proofs.Engine.Coherent
import DocHighlighter.Proofs.Html.Patched

namespace DocHighlighter

open Html

/-! ## Classifying -/

namespace Classification

variable {isOld : Bool} {q : PagePlace} {c : Classification}

/-- Whether an element is a fragment with a known tag. -/
def isBusy (isOld : Bool) (q : PagePlace) : Bool :=
  (block? isOld q).isSome

theorem isBusy_eq_false_iff : isBusy isOld q = false ↔ Silent isOld q := by
  rw [isBusy, Option.isSome_eq_false_iff, Option.isNone_iff_eq_none, block?_eq_none_iff]

theorem visit_of_fault (h : c.fault ≠ none) :
    visit isOld q.parent q.tag q.children c = ({}, c) := by
  have hfault : c.fault.isSome = true := Option.isSome_iff_ne_none.2 h
  simp [visit, hfault]

/-- The element of the code block of a fragment, its newlines in one spelling. -/
def plain? (isOld : Bool) (q : PagePlace) : Option Node :=
  (block? isOld q).map fun b => ({ b with body := Text.unifyNewlines b.body } : CodeBlock).plain

theorem isSome_plain? (isOld : Bool) (q : PagePlace) :
    (plain? isOld q).isSome = isBusy isOld q :=
  Option.isSome_map

/-- On a page without U+0000 it is what is read from the markup of the block. -/
theorem map_elementFor (hfree : q.node.NulFree) :
    (block? isOld q).map elementFor = (plain? isOld q).map .ok := by
  cases hb : block? isOld q with
  | none => rw [plain?, hb]; rfl
  | some b =>
    obtain ⟨hl, hbody⟩ := of_block? hfree hb
    rw [plain?, hb, Option.map_some, CodeBlock.elementFor_of_nulFree hl hbody]
    rfl

theorem substitute?_eq (hfree : q.node.NulFree) : substitute? isOld q = plain? isOld q := by
  have hboth : (block? isOld q).map elementFor = (plain? isOld q).map .ok := map_elementFor hfree
  rw [substitute?, plain?] at *
  cases hb : block? isOld q with
  | none => rfl
  | some b =>
    rw [hb, Option.map_some, Option.map_some, Option.map_some, Option.some.injEq] at hboth
    rw [Option.bind_some, hboth]
    rfl

theorem substitutes_plain (hfree : q.node.NulFree) :
    Substitutes (visit isOld) (plain? isOld) (fun c => c.fault = none) q := by
  intro c hc
  rw [← substitute?_eq hfree]
  exact substitutes hfree c hc

/-- What is busy is a fragment. -/
theorem selectsClass_of_isBusy (h : isBusy isOld q = true) :
    q.tag.selectsClass isOld Marks.fragment = true := by
  rw [← Bool.not_eq_false]
  intro hnone
  rw [isBusy_eq_false_iff.2 (silent_of_class hnone)] at h
  cases h

/-- There is no fragment in a code block. -/
theorem countP_plain {new : Node} (h : plain? isOld q = some new) (parent : Option Tag) :
    (new.places parent).countP (fun p => p.tag.selectsClass isOld Marks.fragment) = 0 := by
  obtain ⟨b, hb, rfl⟩ := Option.map_eq_some_iff.1 h
  obtain ⟨-, hclass⟩ := ite_eq_iff.1 hb |>.resolve_right (by simp)
  have hl := (Fragment.of_classify hclass).1
  have hpre : ∀ isOld, (Tag.bare "pre").selectsClass isOld Marks.fragment = false := by
    decide
  have hcode : ∀ language ∈ CodeBlock.knownLanguages, ∀ isOld,
      (CodeBlock.codeTag language).selectsClass isOld Marks.fragment = false := by
    decide
  simp [CodeBlock.plain, Node.places, Node.placesAll, Fragment.placesAll_textNodes, hpre,
    hcode b.language hl]

/-- **Fragments are counted once, as found or as left,** exactly if none is inside one with a known
tag. -/
theorem countP_isBusy_iff (isOld : Bool) (parent : Option Tag) (n : Node) :
    ((n.places parent).countP (isBusy isOld) +
            ((n.substituted (plain? isOld) parent).places parent).countP
              (fun q => q.tag.selectsClass isOld Marks.fragment) =
          (n.places parent).countP (fun q => q.tag.selectsClass isOld Marks.fragment) ∧
        ∀ q ∈ n.places parent, isBusy isOld q = true → ∀ q' ∈ q.inside, isBusy isOld q' = false) ↔
      ∀ q ∈ n.places parent, isBusy isOld q = true →
        ∀ q' ∈ q.inside, q'.tag.selectsClass isOld Marks.fragment = false := by
  have hcount := (countP_substituted (f := plain? isOld)
    (fun tag => tag.selectsClass isOld Marks.fragment)
    (fun q hq => selectsClass_of_isBusy (isSome_plain? isOld q ▸ hq))
    (fun q new hnew parent => countP_plain hnew parent) parent n).2
  simp only [isSome_plain?] at hcount
  have hbusy : (∀ q ∈ n.places parent, isBusy isOld q = true →
        ∀ q' ∈ q.inside, q'.tag.selectsClass isOld Marks.fragment = false) →
      ∀ q ∈ n.places parent, isBusy isOld q = true → ∀ q' ∈ q.inside, isBusy isOld q' = false :=
    fun h q hq hq' p hp => isBusy_eq_false_iff.2 (silent_of_class (h q hq hq' p hp))
  have hsame : (∀ q ∈ n.places parent, isBusy isOld q = true →
        ∀ q' ∈ q.inside, isBusy isOld q' = false) →
      n.outermost (isBusy isOld) parent = (n.places parent).filter (isBusy isOld) :=
    (Node.outermost_eq_filter_iff (isBusy isOld) parent n).2
  have hfilter : (∀ q ∈ (n.places parent).filter (isBusy isOld), ∀ q' ∈ q.inside,
        q'.tag.selectsClass isOld Marks.fragment = false) ↔
      ∀ q ∈ n.places parent, isBusy isOld q = true →
        ∀ q' ∈ q.inside, q'.tag.selectsClass isOld Marks.fragment = false := by
    simp only [List.mem_filter, and_imp]
  rw [List.countP_eq_length_filter]
  constructor
  · rintro ⟨h, hnone⟩
    rw [hsame hnone] at hcount
    exact hfilter.1 (hcount.1 h)
  · intro h
    have hnone := hbusy h
    rw [hsame hnone] at hcount
    exact ⟨hcount.2 (hfilter.2 h), hnone⟩

/-- Where no fragment has a known tag, all fragments stay. -/
theorem countP_of_idle (isOld : Bool) (parent : Option Tag) {ns : List Node}
    (h : ∀ q ∈ Node.placesAll parent ns, isBusy isOld q = false) :
    (Node.placesAll parent (Node.substitutedAll (plain? isOld) parent ns)).countP
        (fun q => q.tag.selectsClass isOld Marks.fragment) =
      (Node.placesAll parent ns).countP fun q => q.tag.selectsClass isOld Marks.fragment := by
  have hcount := (countP_substitutedAll (f := plain? isOld)
    (fun tag => tag.selectsClass isOld Marks.fragment)
    (fun q hq => selectsClass_of_isBusy (isSome_plain? isOld q ▸ hq))
    (fun q new hnew parent => countP_plain hnew parent) parent ns).2
  simp only [isSome_plain?] at hcount
  have hnone : Node.outermostAll (isBusy isOld) parent ns = [] := by
    have hsublist := Node.outermostAll_sublist (isBusy isOld) parent ns
    rwa [List.filter_eq_nil_iff.2 fun q hq => by simp [h q hq], List.sublist_nil] at hsublist
  rw [hnone, List.length_nil, Nat.zero_add] at hcount
  exact hcount.2 (List.forall_mem_nil _)

/-- A visit without a fault counts the fragments with known tags. -/
theorem counts (isOld : Bool) : Counts (visit isOld) (fun _ => True) (fun c => c.fault = none)
    (fun c => c.blocks.length) (isBusy isOld) fun _ => false := by
  have hback : ∀ c q, (PagePlace.answer (visit isOld) c q).fault = none → c.fault = none := by
    intro c q h
    by_contra hfault
    rw [PagePlace.answer, visit_of_fault hfault] at h
    exact hfault h
  have hvisit : ∀ c q, (PagePlace.answer (visit isOld) c q).fault = none →
      (PagePlace.replacement (visit isOld) c q).own.isSome = isBusy isOld q ∧
        (PagePlace.replacement (visit isOld) c q).around = none ∧
        (PagePlace.answer (visit isOld) c q).blocks = c.blocks ++ (block? isOld q).toList := by
    intro c q h
    have hc := hback c q h
    rw [isBusy]
    unfold PagePlace.answer PagePlace.replacement at *
    cases hb : block? isOld q with
    | none =>
      rw [visit_of_silent (block?_eq_none_iff.1 hb)]
      exact ⟨rfl, rfl, by simp⟩
    | some b =>
      cases hnew : elementFor b with
      | ok new =>
        rw [visit_of_block? hc hb hnew]
        exact ⟨rfl, rfl, rfl⟩
      | error fault =>
        rw [visit_of_error hc hb hnew] at h
        cases h
  constructor
  case inv => exact fun _ _ _ => trivial
  case good => exact hback
  case own_eq => exact fun c q _ h => (hvisit c q h).1
  case around_eq =>
    intro c q _ h
    rw [(hvisit c q h).2.1]
    rfl
  case count_eq =>
    intro c q _ h
    rw [(hvisit c q h).2.2, List.length_append, isBusy]
    cases block? isOld q <;> rfl

end Classification

/-! ## Highlighting -/

namespace Highlighting

variable {isOld : Bool} {q : PagePlace} {h : Highlighting} {e : Engine}

/-- Whether an element is a code that the engine would highlight. -/
def isBusy (isOld : Bool) (e : Engine) (q : PagePlace) : Bool :=
  q.parent.any fun pre => codeSelector.fits isOld q.parent q.tag &&
    !pre.classes.contains Marks.highlighted &&
    (Marks.languageOf q.tag).any fun language => (e.get? language).isSome

theorem isBusy_eq_false_iff : isBusy isOld e q = false ↔ Silent isOld e q := by
  unfold isBusy Silent
  cases q.parent with
  | none => simp
  | some pre =>
    cases Marks.languageOf q.tag with
    | none => simp
    | some language =>
      cases hget : e.get? language <;> simp [hget]

theorem isBusy_congr {e' : Engine} (hlanguages : e'.languages = e.languages) :
    isBusy isOld e' q = isBusy isOld e q := by
  unfold isBusy
  simp only [Engine.get?_congr hlanguages]

/-- A visit without a fault counts the codes in languages of the engine. -/
theorem counts (isOld : Bool) (e : Engine) :
    Counts (visit isOld) (fun h => h.engine.languages = e.languages) (fun h => h.fault = none)
      Highlighting.count (fun _ => false) (isBusy isOld e) := by
  have hback : ∀ h q, (PagePlace.answer (visit isOld) h q).fault = none → h.fault = none := by
    intro h q hend
    by_contra hfault
    rw [PagePlace.answer, visit_of_fault hfault] at hend
    exact hfault hend
  have hvisit : ∀ h q, h.engine.languages = e.languages →
      (PagePlace.answer (visit isOld) h q).fault = none →
      (PagePlace.replacement (visit isOld) h q).own = none ∧
        (PagePlace.replacement (visit isOld) h q).around.isSome = isBusy isOld e q ∧
        (PagePlace.answer (visit isOld) h q).count =
          h.count + if isBusy isOld e q then 1 else 0 := by
    intro h q hlanguages hend
    have hfault := hback h q hend
    rw [← isBusy_congr hlanguages]
    unfold PagePlace.answer PagePlace.replacement at *
    cases hbusy : isBusy isOld h.engine q with
    | false =>
      obtain ⟨log, hquiet⟩ := visit_of_silent (isBusy_eq_false_iff.1 hbusy)
      rw [hquiet]
      exact ⟨rfl, rfl, rfl⟩
    | true =>
      have hloud : ¬ Silent isOld h.engine q := by
        rw [← isBusy_eq_false_iff, hbusy]
        exact Bool.false_ne_true.symm
      obtain ⟨pre, language, -, -, -, -, hlit⟩ := visit_of_busy hloud hfault
      obtain ⟨fault, herror⟩ | ⟨spans, new, -, -, hnew⟩ :=
        highlight_cases h pre q.tag q.children language
      · rw [hlit, herror] at hend
        cases hend
      · rw [hlit, hnew]
        exact ⟨rfl, rfl, rfl⟩
  constructor
  case inv => exact fun h q hlanguages => (languages_visit isOld h q).trans hlanguages
  case good => exact hback
  case own_eq =>
    intro h q hlanguages hend
    rw [(hvisit h q hlanguages hend).1]
    rfl
  case around_eq => exact fun h q hlanguages hend => (hvisit h q hlanguages hend).2.1
  case count_eq =>
    intro h q hlanguages hend
    rw [(hvisit h q hlanguages hend).2.2, Bool.false_or]

end Highlighting

/-! ## Copy buttons -/

namespace CopyButtons

variable {isOld : Bool} {title : String} {q : PagePlace} {c : CopyButtons}

/-- Whether an element is a highlighted block without a button. -/
def isBusy (isOld : Bool) (q : PagePlace) : Bool :=
  blockSelector.fits isOld q.parent q.tag && !q.parent.any (·.classes.contains Marks.wrapper)

theorem isBusy_eq_false_iff : isBusy isOld q = false ↔ Silent isOld q := by
  rw [isBusy, Silent, Bool.and_eq_false_iff, Bool.not_eq_false', ← Bool.not_eq_true,
    ← imp_iff_not_or]

theorem visit_of_fault (h : c.fault ≠ none) :
    visit isOld title q.parent q.tag q.children c = ({}, c) := by
  have hfault : c.fault.isSome = true := Option.isSome_iff_ne_none.2 h
  simp [visit, hfault]

variable (title) in
/-- A visit to a highlighted block without a button fails, or counts and puts the wrapper with the
button in its place. -/
theorem visit_of_busy (hbusy : isBusy isOld q = true) (hc : c.fault = none) :
    (∃ fault, visit isOld title q.parent q.tag q.children c =
      ({}, { c with fault := some fault })) ∨
    ∃ new, visit isOld title q.parent q.tag q.children c =
      ({ own := some new }, { c with count := c.count + 1 }) := by
  obtain ⟨hfits, hbare⟩ := (Bool.and_eq_true_iff).1 hbusy
  rw [Bool.not_eq_true'] at hbare
  unfold visit
  simp only [hc, hfits, hbare, Option.isSome_none, Bool.not_true, Bool.or_self,
    Bool.false_eq_true, if_false]
  cases elementOf (markup title (.element q.tag q.children)) wrapperSelector with
  | ok new => exact .inr ⟨new, rfl⟩
  | error fault => exact .inl ⟨fault, rfl⟩

/-- A visit without a fault counts the highlighted blocks without a button. -/
theorem counts (isOld : Bool) (title : String) :
    Counts (visit isOld title) (fun _ => True) (fun c => c.fault = none) CopyButtons.count
      (isBusy isOld) fun _ => false := by
  have hback : ∀ c q, (PagePlace.answer (visit isOld title) c q).fault = none →
      c.fault = none := by
    intro c q h
    by_contra hfault
    rw [PagePlace.answer, visit_of_fault hfault] at h
    exact hfault h
  have hvisit : ∀ c q, (PagePlace.answer (visit isOld title) c q).fault = none →
      (PagePlace.replacement (visit isOld title) c q).own.isSome = isBusy isOld q ∧
        (PagePlace.replacement (visit isOld title) c q).around = none ∧
        (PagePlace.answer (visit isOld title) c q).count =
          c.count + if isBusy isOld q then 1 else 0 := by
    intro c q h
    have hc := hback c q h
    unfold PagePlace.answer PagePlace.replacement at *
    cases hbusy : isBusy isOld q with
    | false =>
      rw [visit_of_silent (isBusy_eq_false_iff.1 hbusy)]
      exact ⟨rfl, rfl, rfl⟩
    | true =>
      obtain ⟨fault, herror⟩ | ⟨new, hnew⟩ := visit_of_busy title hbusy hc
      · rw [herror] at h
        cases h
      · rw [hnew]
        exact ⟨rfl, rfl, rfl⟩
  constructor
  case inv => exact fun _ _ _ => trivial
  case good => exact hback
  case own_eq => exact fun c q _ h => (hvisit c q h).1
  case around_eq =>
    intro c q _ h
    rw [(hvisit c q h).2.1]
    rfl
  case count_eq =>
    intro c q _ h
    rw [(hvisit c q h).2.2, Bool.or_false]

end CopyButtons
end DocHighlighter
