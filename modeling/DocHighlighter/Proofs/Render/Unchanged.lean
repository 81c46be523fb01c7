/-
# Pages that come back as they were

A page that no stage changed comes back as the text it was, and any other page is written
anew.  Which of the two happens is decided by three counts of the report, not by the page.
The counts can be trusted: a stage that counts nothing, and ends well, leaves its page as it
is (`Html.Page.page_eq_of_not_showsChange`).

| the counts | the page | what comes out |
|---|---|---|
| all zero | the page as it was read | the text |
| not all zero | what the stages have made of it | its markup, which is never empty |

The markup is never empty because an element stands in the place of the root, whatever the
stages do: they put nothing on a page but elements (`PutsElements`).
-/

import DocHighlighter.Proofs.Render.Staged
import DocHighlighter.Proofs.Render.Truthful

namespace DocHighlighter

open Html

namespace Html

/-! ## Elements in the place of the root -/

/-- Whether a node is an element. -/
def Node.IsElement (n : Node) : Prop :=
  ∃ tag children, n = .element tag children

theorem Node.IsElement.markup_ne_nil {n : Node} (h : n.IsElement) : n.markup ≠ [] := by
  obtain ⟨tag, children, rfl⟩ := h
  simp [Node.markup, Node.markupIn, Tag.opening]

theorem isElement_of_elementOf {markup : List Char} {selector : String} {n : Node}
    (h : elementOf markup selector = .ok n) : n.IsElement := by
  obtain ⟨q, -, rfl⟩ := exists_place_of_elementOf h
  exact ⟨q.tag, q.children, rfl⟩

/-- Whether a visit puts nothing but elements on a page. -/
def PutsElements {σ : Type} (visit : Visit σ) : Prop :=
  ∀ parent tag children s n,
    (visit parent tag children s).1.own = some n ∨ (visit parent tag children s).1.around = some n →
      n.IsElement

namespace Page

variable {p : Page}

/-- Whether an element stands in the place of the root. -/
def ShowsElement (p : Page) : Prop :=
  (p.shown.getD p.root).IsElement

theorem ShowsElement.markup_ne_nil (h : p.ShowsElement) : p.markup ≠ [] := by
  intro hnil
  rw [markup, List.append_eq_nil_iff, List.append_eq_nil_iff] at hnil
  exact Node.IsElement.markup_ne_nil h hnil.1.2

theorem showsElement_read (text : List Char) : (read text).ShowsElement := by
  rw [ShowsElement, shown_read, Option.getD_none]
  exact exists_root text

/-- Where only elements are put, an element stays in the place of the root. -/
theorem ShowsElement.rewrite {σ : Type} {visit : Visit σ} (h : p.ShowsElement)
    (hvisit : PutsElements visit) (s : σ) : (p.rewrite visit s).1.ShowsElement := by
  unfold Page.rewrite
  split
  · next tag children hroot =>
    dsimp only [ShowsElement]
    cases hshown : p.shown with
    | some n => rwa [ShowsElement, hshown] at h
    | none =>
      rw [Option.orElse_none]
      cases hown : (visit none tag children s).1.own with
      | some n => exact hvisit _ _ _ _ _ (.inl hown)
      | none =>
        rw [Option.orElse_none]
        cases hinside : (rewriteAll visit (some tag) children (visit none tag children s).2).2.1 with
        | some n =>
          obtain ⟨tag', children', s', -, -, haround⟩ :=
            exists_around (fun _ _ (_ : True) => trivial) trivial hinside
          exact hvisit _ _ _ _ _ (.inr haround)
        | none => exact ⟨_, _, rfl⟩
  · exact h

end Page
end Html

/-! ## Every stage puts elements -/

theorem Classification.putsElements_visit (isOld : Bool) : PutsElements (visit isOld) := by
  intro parent tag children s n h
  unfold visit at h
  split at h
  · simp at h
  · split at h
    · simp at h
    · split at h
      · next new hnew =>
        obtain rfl : new = n := by simpa using h
        exact isElement_of_elementOf hnew
      · simp at h

theorem Highlighting.putsElements_visit (isOld : Bool) : PutsElements (visit isOld) := by
  intro parent tag children s n h
  obtain ⟨log, hquiet⟩ | ⟨pre, language, -, -, hlit⟩ := visit_cases isOld s ⟨parent, tag, children⟩
  · simp [hquiet] at h
  · obtain ⟨fault, hfault⟩ | ⟨spans, new, -, hnew, hmade⟩ :=
      highlight_cases s pre tag children language
    · simp [hlit, hfault] at h
    · obtain rfl : new = n := by simpa [hlit, hmade] using h
      exact isElement_of_elementOf hnew

theorem CopyButtons.putsElements_visit (isOld : Bool) (title : String) :
    PutsElements (visit isOld title) := by
  intro parent tag children s n h
  unfold visit at h
  split at h
  · simp at h
  · split at h
    · simp at h
    · split at h
      · next new hnew =>
        obtain rfl : new = n := by simpa using h
        exact isElement_of_elementOf hnew
      · simp at h

namespace Html.Page

theorem ShowsElement.highlightBy {p : Page} (h : p.ShowsElement) (host : Option Host) :
    (Host.highlight p host).1.ShowsElement := by
  unfold Host.highlight
  split
  · exact h
  · split
    · exact h.rewrite (Highlighting.putsElements_visit _) _
    · exact h

theorem ShowsElement.addWantedButtons {p : Page} (h : p.ShowsElement) (config : HighlightConfig) :
    (p.addWantedButtons config).1.ShowsElement := by
  have hadded := h.rewrite (CopyButtons.putsElements_visit p.isOld config.copyButtonTitle) {}
  unfold Page.addWantedButtons
  split
  · dsimp only
    split <;> exact hadded
  · exact h

/-- Rendering leaves an element in the place of the root, also where a stage goes wrong. -/
theorem ShowsElement.render {p : Page} (h : p.ShowsElement) (host : Option Host)
    (config : HighlightConfig) : (p.render host config).page.ShowsElement := by
  have hclassified := h.rewrite (Classification.putsElements_visit p.isOld) {}
  unfold Page.render Page.renderBlocks
  dsimp only
  split
  · exact h
  · split
    · exact hclassified
    · split
      · exact hclassified.highlightBy _
      · split <;> exact (hclassified.highlightBy _).addWantedButtons config

end Html.Page

/-! ## What comes out -/

/-- **A page comes back as the text it was only if nothing has changed it.**  For every text, every
engine or none, and all settings: if nothing was counted, the page is the page that was read, and the
text comes out; otherwise the markup of the page comes out, which is not empty. -/
theorem renderText_by_counts {text : List Char} {host : Option Host} {config : HighlightConfig}
    {report : RenderReport}
    (hresult : ((Page.read text).render host config).result = .ok report) :
    ((report.fragmentsClassified = 0 ∧ report.blocksHighlighted = 0 ∧ report.copyButtons = 0) →
      ((Page.read text).render host config).page = Page.read text ∧
        (renderText text host config).result = .ok (text, report)) ∧
    (¬ (report.fragmentsClassified = 0 ∧ report.blocksHighlighted = 0 ∧ report.copyButtons = 0) →
      ((Page.read text).render host config).page.markup ≠ [] ∧
        (renderText text host config).result =
          .ok (((Page.read text).render host config).page.markup, report)) := by
  rw [← RenderReport.showsChange_eq_false_iff, Bool.not_eq_false]
  constructor
  · intro hidle
    refine ⟨Page.page_eq_of_not_showsChange hresult hidle, renderText_ok_iff.2 ⟨hresult, ?_⟩⟩
    rw [hidle]
    rfl
  · intro hshows
    refine ⟨((Page.showsElement_read text).render host config).markup_ne_nil,
      renderText_ok_iff.2 ⟨hresult, ?_⟩⟩
    rw [hshows, if_pos rfl]

/-- Two paragraphs, written without what may be left out. -/
def barePage : List Char :=
  "<p>a<p>b".toList

/-- A page with a fragment in a known language. -/
def fragmentPage : List Char :=
  ("<!DOCTYPE html><div class=\"fragment\"><div class=\"line\">@json</div></div>").toList

/-- The first page stays the text that it is, which is not its markup.  The second one is written
anew, also where the engine can do nothing. -/
theorem renderText_barePage_fragmentPage :
    (((Page.read barePage).render none {}).page = Page.read barePage ∧
      (Page.read barePage).markup ≠ barePage ∧
      (renderText barePage none {}).result = .ok (barePage, { filesScanned := 1 })) ∧
    (renderText fragmentPage
        (some { engine := { languages := [] }, canRegister := false, canHighlight := false })
        {}).result =
      .ok (((Page.read fragmentPage).render
        (some { engine := { languages := [] }, canRegister := false, canHighlight := false })
        {}).page.markup, { filesScanned := 1, fragmentsClassified := 1 }) := by
  have hbare : ((Page.read barePage).render none {}).result.toOption = some { filesScanned := 1 } ∧
      (Page.read barePage).markup ≠ barePage := by
    unfold barePage
    rw [String.toList_ofList]
    decide +kernel
  have hfragment : ((Page.read fragmentPage).render
      (some { engine := { languages := [] }, canRegister := false, canHighlight := false })
      {}).result.toOption = some { filesScanned := 1, fragmentsClassified := 1 } := by
    unfold fragmentPage
    rw [String.toList_ofList]
    decide +kernel
  obtain ⟨hpage, htext⟩ := (renderText_by_counts (eq_ok_of_toOption hbare.1)).1 ⟨rfl, rfl, rfl⟩
  exact ⟨⟨hpage, hbare.2, htext⟩,
    ((renderText_by_counts (eq_ok_of_toOption hfragment)).2 (by decide)).2⟩

end DocHighlighter
