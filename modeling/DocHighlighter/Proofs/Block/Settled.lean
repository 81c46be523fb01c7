/-
# Stages with nothing to do

Each stage passes over an element that it has nothing to do with, and otherwise counts
it or ends the work with a fault.  So at the end of a page the count tells whether there
was anything to do (`Rests.idle_rewrite_iff`).

| stage | passes over (`Silent`) | tells (`Idle`) |
|---|---|---|
| classify | what is no fragment with a known tag | the blocks found |
| highlight | what is no code, or marked, or in no language of the engine | the count |
| copy buttons | what is no marked block, or stands in a wrapper | the count |

Highlighting warns about languages that the engine does not know; that is no work.
-/

import DocHighlighter.Block.Classify
import DocHighlighter.Block.CopyButton
import DocHighlighter.Block.Highlight
import DocHighlighter.Proofs.Engine.Registered
import DocHighlighter.Proofs.Html.Places
import Mathlib.Tactic.ByContra

namespace DocHighlighter

open Html

/-! ## Classifying -/

namespace Classification

/-- An element is no fragment with a known tag. -/
def Silent (isOld : Bool) (q : PagePlace) : Prop :=
  (Selector.ofClass Marks.fragment).fits isOld q.parent q.tag = true →
    (Fragment.ofElement isOld q.tag q.children).classify? = none

/-- No block has been found, and nothing went wrong. -/
def Idle (c : Classification) : Prop :=
  c.fault = none ∧ c.blocks = []

variable {isOld : Bool} {q : PagePlace} {c : Classification}

theorem silent_of_class (h : q.tag.selectsClass isOld Marks.fragment = false) :
    Silent isOld q := by
  intro hfits
  simp [Selector.fits, Selector.ofClass, Simple.fits, h] at hfits

theorem visit_of_silent (h : Silent isOld q) :
    visit isOld q.parent q.tag q.children c = ({}, c) := by
  unfold visit
  by_cases hfits : (Selector.ofClass Marks.fragment).fits isOld q.parent q.tag = true
  · simp [h hfits]
  · simp [hfits]

theorem silent_of_idle (h : Idle (PagePlace.answer (visit isOld) c q)) : Silent isOld q := by
  intro hfits
  unfold PagePlace.answer visit at h
  by_cases hfault : c.fault = none
  · cases hclass : (Fragment.ofElement isOld q.tag q.children).classify? with
    | none => rfl
    | some block =>
      cases hnew : elementFor block with
      | ok new => simp [hfits, hfault, hclass, hnew, Idle] at h
      | error fault => simp [hfits, hfault, hclass, hnew, Idle] at h
  · have hsome : c.fault.isSome = true := Option.isSome_iff_ne_none.2 hfault
    simp only [hsome, Bool.true_or, if_true] at h
    exact absurd h.1 hfault

theorem rests (isOld : Bool) : Rests (visit isOld) Idle (fun _ => ()) fun _ => Silent isOld where
  silent := fun _ _ h => silent_of_idle h
  idle_iff := fun _ _ h => by rw [PagePlace.answer, visit_of_silent h]
  known_eq := fun _ _ _ => rfl
  replacement_eq := fun _ _ h => by rw [PagePlace.replacement, visit_of_silent h]

end Classification

/-! ## Highlighting -/

namespace Highlighting

/-- An element is no code that the engine would highlight. -/
def Silent (isOld : Bool) (e : Engine) (q : PagePlace) : Prop :=
  ∀ pre ∈ q.parent, codeSelector.fits isOld q.parent q.tag = true →
    pre.classes.contains Marks.highlighted = false →
      ∀ language ∈ Marks.languageOf q.tag, e.get? language = none

/-- No block has been highlighted, and nothing went wrong. -/
def Idle (h : Highlighting) : Prop :=
  h.fault = none ∧ h.count = 0

variable {isOld : Bool} {q : PagePlace} {h : Highlighting}

theorem silent_of_name (h : q.tag.name ≠ "code") (e : Engine) : Silent isOld e q := by
  intro pre hpre hfits
  simp [codeSelector, Selector.fits, Simple.fits, Ne.symm h] at hfits

/-- Highlighting a block fails, or it counts and puts what it reads around the code. -/
theorem highlight_cases (h : Highlighting) (pre code : Tag) (children : List Node)
    (language : String) :
    (∃ fault, h.highlight pre code children language =
      ({}, { h with engine := h.engine.keepLexer language, fault := some fault })) ∨
    ∃ spans new,
      h.engine.highlight (String.ofList (Node.textContents children)) language = .ok spans ∧
      elementOf (markup pre code spans) "pre" = .ok new ∧
      h.highlight pre code children language = ({ around := some new },
        { h with engine := h.engine.keepLexer language, count := h.count + 1 }) := by
  cases hspans : h.engine.highlight (String.ofList (Node.textContents children)) language with
  | error fault => exact .inl ⟨.engine fault, by simp only [highlight, hspans]⟩
  | ok spans =>
    cases hnew : elementOf (markup pre code spans) "pre" with
    | error fault => exact .inl ⟨.noElement fault, by simp only [highlight, hspans, hnew]⟩
    | ok new => exact .inr ⟨spans, new, rfl, hnew, by simp only [highlight, hspans, hnew]⟩

theorem not_idle_highlight (h : Highlighting) (pre code : Tag) (children : List Node)
    (language : String) : ¬ Idle (h.highlight pre code children language).2 := by
  obtain ⟨fault, hfault⟩ | ⟨spans, new, -, -, hnew⟩ := highlight_cases h pre code children language
  · simp [hfault, Idle]
  · simp [hnew, Idle]

/-- Where there is nothing to highlight, there may be a warning. -/
theorem visit_of_silent (hq : Silent isOld h.engine q) :
    ∃ log, visit isOld q.parent q.tag q.children h = ({}, { h with log := log }) := by
  unfold visit
  cases hparent : q.parent with
  | none => exact ⟨h.log, rfl⟩
  | some pre =>
    by_cases hfits : codeSelector.fits isOld (some pre) q.tag = true
    · by_cases hmark : pre.classes.contains Marks.highlighted = true
      · exact ⟨h.log, by simp only [hmark, if_true, ite_self]⟩
      · cases hlanguage : Marks.languageOf q.tag with
        | none => exact ⟨h.log, by simp only [ite_self]⟩
        | some language =>
          have hnone := hq pre hparent (hparent ▸ hfits) (by simpa using hmark) language hlanguage
          by_cases hfault : h.fault.isSome = true
          · exact ⟨h.log, by simp [hfault]⟩
          · exact ⟨_, by simp only [hfits, hfault, hmark, hnone]; rfl⟩
    · exact ⟨h.log, by simp [hfits]⟩

theorem silent_of_idle (hidle : Idle (PagePlace.answer (visit isOld) h q)) :
    Silent isOld h.engine q := by
  intro pre hparent hfits hmark language hlanguage
  by_contra hsome
  obtain ⟨g, hg⟩ := Option.ne_none_iff_exists'.1 hsome
  unfold PagePlace.answer visit at hidle
  rw [Option.mem_def] at hparent hlanguage
  rw [hparent] at hfits hidle
  by_cases hfault : h.fault = none
  · simp only [hfits, hfault, hmark, hlanguage, hg] at hidle
    exact not_idle_highlight h pre q.tag q.children language hidle
  · have hfaulty : h.fault.isSome = true := Option.isSome_iff_ne_none.2 hfault
    simp only [hfaulty, Bool.true_or, if_true] at hidle
    exact absurd hidle.1 hfault

theorem rests (isOld : Bool) : Rests (visit isOld) Idle Highlighting.engine (Silent isOld) where
  silent := fun _ _ hidle => silent_of_idle hidle
  idle_iff := fun h q hq => by
    obtain ⟨log, hvisit⟩ := visit_of_silent hq
    rw [PagePlace.answer, hvisit]
    rfl
  known_eq := fun h q hq => by
    obtain ⟨log, hvisit⟩ := visit_of_silent hq
    rw [PagePlace.answer, hvisit]
  replacement_eq := fun h q hq => by
    obtain ⟨log, hvisit⟩ := visit_of_silent hq
    rw [PagePlace.replacement, hvisit]

/-- Where there is something to highlight, and nothing has gone wrong, it is highlighted. -/
theorem visit_of_busy (hq : ¬ Silent isOld h.engine q) (hfault : h.fault = none) :
    ∃ pre language, q.parent = some pre ∧ codeSelector.fits isOld q.parent q.tag = true ∧
      Marks.languageOf q.tag = some language ∧ (h.engine.get? language).isSome = true ∧
      visit isOld q.parent q.tag q.children h = h.highlight pre q.tag q.children language := by
  simp only [Silent, not_forall] at hq
  obtain ⟨pre, hparent, hfits, hmark, language, hlanguage, hknown⟩ := hq
  obtain ⟨g, hg⟩ := Option.ne_none_iff_exists'.1 hknown
  rw [Option.mem_def] at hparent hlanguage
  rw [hparent] at hfits
  refine ⟨pre, language, hparent, by rwa [hparent], hlanguage, by rw [hg]; rfl, ?_⟩
  rw [hparent]
  simp only [visit, hfits, hfault, hmark, hlanguage, hg]
  rfl

theorem visit_of_fault (hfault : h.fault ≠ none) :
    visit isOld q.parent q.tag q.children h = ({}, h) := by
  have hsome : h.fault.isSome = true := Option.isSome_iff_ne_none.2 hfault
  unfold visit
  cases q.parent with
  | none => rfl
  | some pre => simp [hsome]

/-- What a visit does: it warns at most, or it highlights the block of a code. -/
theorem visit_cases (isOld : Bool) (h : Highlighting) (q : PagePlace) :
    (∃ log, visit isOld q.parent q.tag q.children h = ({}, { h with log := log })) ∨
    ∃ pre language, q.parent = some pre ∧ codeSelector.fits isOld q.parent q.tag = true ∧
      visit isOld q.parent q.tag q.children h = h.highlight pre q.tag q.children language := by
  by_cases hq : Silent isOld h.engine q
  · exact .inl (visit_of_silent hq)
  · by_cases hfault : h.fault = none
    · obtain ⟨pre, language, hparent, hfits, -, -, hvisit⟩ := visit_of_busy hq hfault
      exact .inr ⟨pre, language, hparent, hfits, hvisit⟩
    · exact .inl ⟨h.log, visit_of_fault hfault⟩

/-- A visit asks the engine for one lexer at most. -/
theorem engine_visit (isOld : Bool) (h : Highlighting) (q : PagePlace) :
    (PagePlace.answer (visit isOld) h q).engine = h.engine ∨
      ∃ name, (PagePlace.answer (visit isOld) h q).engine = h.engine.keepLexer name := by
  unfold PagePlace.answer
  obtain ⟨log, hvisit⟩ | ⟨pre, language, -, -, hvisit⟩ := visit_cases isOld h q
  · exact .inl (by rw [hvisit])
  · refine .inr ⟨language, ?_⟩
    rw [hvisit]
    obtain ⟨fault, hfault⟩ | ⟨spans, new, -, -, hnew⟩ :=
      highlight_cases h pre q.tag q.children language
    · rw [hfault]
    · rw [hnew]

/-- Highlighting makes lexers, and leaves the table of languages. -/
theorem languages_visit (isOld : Bool) (h : Highlighting) (q : PagePlace) :
    (PagePlace.answer (visit isOld) h q).engine.languages = h.engine.languages := by
  rcases engine_visit isOld h q with hsame | ⟨name, hkept⟩
  · rw [hsame]
  · rw [hkept, h.engine.languages_keepLexer]

theorem languages_highlight (p : Page) (e : Engine) :
    (p.highlight e).2.engine.languages = e.languages := by
  have hfold : ∀ (places : List PagePlace) (h : Highlighting),
      (places.foldl (PagePlace.answer (visit p.isOld)) h).engine.languages =
        h.engine.languages := by
    intro places
    induction places with
    | nil => exact fun h => rfl
    | cons q rest ih => exact fun h => (ih _).trans (languages_visit p.isOld h q)
  rw [Page.highlight, Page.rewrite_answers]
  exact hfold ..

end Highlighting

/-! ## Copy buttons -/

namespace CopyButtons

/-- An element is no highlighted block without a button. -/
def Silent (isOld : Bool) (q : PagePlace) : Prop :=
  blockSelector.fits isOld q.parent q.tag = true →
    q.parent.any (·.classes.contains Marks.wrapper) = true

/-- No button has been added, and nothing went wrong. -/
def Idle (c : CopyButtons) : Prop :=
  c.fault = none ∧ c.count = 0

variable {isOld : Bool} {title : String} {q : PagePlace} {c : CopyButtons}

theorem silent_of_name (h : q.tag.name ≠ "pre") : Silent isOld q := by
  intro hfits
  simp [blockSelector, Selector.fits, Simple.fits, Ne.symm h] at hfits

theorem visit_of_silent (h : Silent isOld q) :
    visit isOld title q.parent q.tag q.children c = ({}, c) := by
  unfold visit
  by_cases hfits : blockSelector.fits isOld q.parent q.tag = true
  · simp only [h hfits, if_true, ite_self]
  · simp [hfits]

theorem silent_of_idle (h : Idle (PagePlace.answer (visit isOld title) c q)) : Silent isOld q := by
  intro hfits
  by_contra haround
  have hbare : q.parent.any (·.classes.contains Marks.wrapper) = false :=
    Bool.eq_false_iff.2 haround
  unfold PagePlace.answer visit at h
  by_cases hfault : c.fault = none
  · simp only [hfits, hfault, hbare, Option.isSome_none, Bool.not_true, Bool.or_false,
      Bool.false_eq_true, if_false] at h
    cases hnew : elementOf (markup title (.element q.tag q.children)) wrapperSelector with
    | ok new => simp [hnew, Idle] at h
    | error fault => simp [hnew, Idle] at h
  · have hfaulty : c.fault.isSome = true := Option.isSome_iff_ne_none.2 hfault
    simp only [hfaulty, Bool.true_or, if_true] at h
    exact absurd h.1 hfault

theorem rests (isOld : Bool) (title : String) :
    Rests (visit isOld title) Idle (fun _ => ()) fun _ => Silent isOld where
  silent := fun _ _ h => silent_of_idle h
  idle_iff := fun _ _ h => by rw [PagePlace.answer, visit_of_silent h]
  known_eq := fun _ _ _ => rfl
  replacement_eq := fun _ _ h => by rw [PagePlace.replacement, visit_of_silent h]

end CopyButtons
end DocHighlighter
