/-
# Going through a page

The places of a page are its elements in order, each with the tag around it
(`Node.places`).  Selecting picks places (`selectIn_eq_filter`), and rewriting visits
them one after the other: the answers at the end are those of the visits, folded over
the places (`rewriteIn_answers`).  Where no visit puts anything in the place of an
element, the page stays as it was (`rewriteIn_of_quiet`); and a visit that tells by its
answers whether it did anything has done nothing exactly if there was nothing to do at
any place (`Rests.idle_rewrite_iff`).

The proofs follow the tree: a node's places are its own and then those of its
children, a list's places are those of its nodes.
-/

import DocHighlighter.Html.Rewrite

namespace DocHighlighter
namespace Html

/-- An element of a page, and the tag around it. -/
structure PagePlace where
  parent : Option Tag
  tag : Tag
  children : List Node

namespace PagePlace

/-- The element at a place. -/
def node (p : PagePlace) : Node :=
  .element p.tag p.children

variable {σ : Type}

/-- What a visit puts in the place of the element and of the one around it. -/
def replacement (visit : Visit σ) (s : σ) (p : PagePlace) : Replacement :=
  (visit p.parent p.tag p.children s).1

/-- The answers after a visit. -/
def answer (visit : Visit σ) (s : σ) (p : PagePlace) : σ :=
  (visit p.parent p.tag p.children s).2

end PagePlace

namespace Node

mutual

/-- The elements at and below a node, in the order of the page. -/
def places (parent : Option Tag) : Node → List PagePlace
  | text _ => []
  | comment _ => []
  | element tag children => ⟨parent, tag, children⟩ :: placesAll (some tag) children

/-- The elements at and below nodes that stand side by side. -/
def placesAll (parent : Option Tag) : List Node → List PagePlace
  | [] => []
  | n :: rest => n.places parent ++ placesAll parent rest

end

theorem placesAll_eq_flatMap (parent : Option Tag) (ns : List Node) :
    placesAll parent ns = ns.flatMap (places parent) := by
  induction ns with
  | nil => rfl
  | cons n rest ih => rw [placesAll, ih, List.flatMap_cons]

mutual

/-- The elements in an element of a page are places of the page. -/
theorem mem_places_of_child {parent : Option Tag} {p : PagePlace} {tag : Tag}
    {children : List Node} (hchild : element tag children ∈ p.children) : ∀ {n : Node},
    p ∈ n.places parent → ⟨some p.tag, tag, children⟩ ∈ n.places parent
  | text _, hp => absurd hp List.not_mem_nil
  | comment _, hp => absurd hp List.not_mem_nil
  | element _ _, hp => by
    rcases List.mem_cons.1 hp with rfl | hp
    · refine List.mem_cons_of_mem _ ?_
      rw [placesAll_eq_flatMap, List.mem_flatMap]
      exact ⟨_, hchild, List.mem_cons_self⟩
    · exact List.mem_cons_of_mem _ (mem_placesAll_of_child hchild hp)

theorem mem_placesAll_of_child {parent : Option Tag} {p : PagePlace} {tag : Tag}
    {children : List Node} (hchild : element tag children ∈ p.children) : ∀ {ns : List Node},
    p ∈ placesAll parent ns → ⟨some p.tag, tag, children⟩ ∈ placesAll parent ns
  | [], hp => absurd hp List.not_mem_nil
  | n :: rest, hp => by
    rcases List.mem_append.1 hp with hp | hp
    · exact List.mem_append_left _ (mem_places_of_child hchild hp)
    · exact List.mem_append_right _ (mem_placesAll_of_child hchild hp)

end

end Node

/-! ## Selecting -/

section Select

variable (isOld : Bool) (s : Selector)

mutual

theorem selectIn_eq_filter (parent : Option Tag) : ∀ n : Node,
    s.selectIn isOld parent n =
      ((n.places parent).filter fun p => s.fits isOld p.parent p.tag).map PagePlace.node
  | .text _ => rfl
  | .comment _ => rfl
  | .element tag children => by
    have ih := selectAll_eq_filter (some tag) children
    rw [Selector.selectIn, ih, Node.places]
    by_cases hfits : s.fits isOld parent tag = true
    · simp [hfits, PagePlace.node]
    · simp [hfits]

theorem selectAll_eq_filter (parent : Option Tag) : ∀ ns : List Node,
    s.selectAll isOld parent ns =
      ((Node.placesAll parent ns).filter fun p => s.fits isOld p.parent p.tag).map PagePlace.node
  | [] => rfl
  | n :: rest => by
    rw [Selector.selectAll, selectIn_eq_filter parent n, selectAll_eq_filter parent rest,
      Node.placesAll, List.filter_append, List.map_append]

end

end Select

/-- **Selecting picks places.** -/
theorem Page.select_eq_filter (p : Page) (s : Selector) :
    p.select s =
      ((p.root.places none).filter fun q => s.fits p.isOld q.parent q.tag).map PagePlace.node :=
  selectIn_eq_filter p.isOld s none p.root

/-- The element of a snippet is one of those that the snippet is read as. -/
theorem exists_place_of_elementOf {markup : List Char} {selector : String} {n : Node}
    (h : elementOf markup selector = .ok n) :
    ∃ q ∈ (Page.read markup).root.places none, q.node = n := by
  rw [elementOf] at h
  split at h
  · next found hfound =>
    obtain rfl : found = n := Except.ok.inj h
    have hmem := List.mem_of_mem_head? hfound
    rw [Page.select_eq_filter, List.mem_map] at hmem
    obtain ⟨q, hq, hnode⟩ := hmem
    exact ⟨q, (List.mem_filter.1 hq).1, hnode⟩
  · cases h

/-! ## Rewriting -/

section Rewrite

variable {σ : Type} (visit : Visit σ)

mutual

theorem rewriteIn_answers (parent : Option Tag) : ∀ (n : Node) (s : σ),
    (rewriteIn visit parent n s).2.2 = (n.places parent).foldl (PagePlace.answer visit) s
  | .text _, _ => rfl
  | .comment _, _ => rfl
  | .element tag children, s => by
    have ih := rewriteAll_answers (some tag) children (visit parent tag children s).2
    rw [rewriteIn, Node.places, List.foldl_cons]
    exact ih

theorem rewriteAll_answers (parent : Option Tag) : ∀ (ns : List Node) (s : σ),
    (rewriteAll visit parent ns s).2.2 = (Node.placesAll parent ns).foldl (PagePlace.answer visit) s
  | [], _ => rfl
  | n :: rest, s => by
    have hfirst := rewriteIn_answers parent n s
    have hrest := rewriteAll_answers parent rest (rewriteIn visit parent n s).2.2
    rw [Node.placesAll, List.foldl_append, ← hfirst, ← hrest]
    rfl

end

/-- A visit says nothing at any of some places, one after the other: it replaces nothing, and the
answers stay. -/
def Quiet (places : List PagePlace) (s : σ) : Prop :=
  ∀ p ∈ places, visit p.parent p.tag p.children s = ({}, s)

variable {visit}

mutual

theorem rewriteIn_of_quiet {parent : Option Tag} {s : σ} : ∀ n : Node,
    Quiet visit (n.places parent) s → rewriteIn visit parent n s = (n, none, s)
  | .text _, _ => rfl
  | .comment _, _ => rfl
  | .element tag children, h => by
    have hown : visit parent tag children s = ({}, s) :=
      h ⟨parent, tag, children⟩ List.mem_cons_self
    have hinside := rewriteAll_of_quiet children
      fun p hp => h p (List.mem_cons_of_mem _ hp)
    rw [rewriteIn, hown]
    simp [hinside]

theorem rewriteAll_of_quiet {parent : Option Tag} {s : σ} : ∀ ns : List Node,
    Quiet visit (Node.placesAll parent ns) s → rewriteAll visit parent ns s = (ns, none, s)
  | [], _ => rfl
  | n :: rest, h => by
    have hfirst := rewriteIn_of_quiet n fun p hp => h p (List.mem_append_left _ hp)
    have hrest := rewriteAll_of_quiet rest fun p hp => h p (List.mem_append_right _ hp)
    rw [rewriteAll, hfirst]
    simp [hrest]

end

/-- The answers after a page are those of the visits, place by place. -/
theorem Page.rewrite_answers (p : Page) (s : σ) :
    (p.rewrite visit s).2 = (p.root.places none).foldl (PagePlace.answer visit) s := by
  unfold Page.rewrite
  split
  · next tag children hroot =>
    rw [hroot, Node.places, List.foldl_cons]
    exact rewriteAll_answers visit (some tag) children (visit none tag children s).2
  · next hroot =>
    cases hn : p.root with
    | text content => rfl
    | comment content => rfl
    | element tag children => exact absurd hn (hroot tag children)

/-- Nodes side by side are rewritten one by one, if what is put in their places does not depend on
the answers so far. -/
theorem rewriteAll_map {α : Type} (Good : σ → Prop) {parent : Option Tag} {node new : α → Node}
    (next : α → σ → σ) {xs : List α}
    (h : ∀ x ∈ xs, ∀ s, Good s →
      rewriteIn visit parent (node x) s = (new x, none, next x s) ∧ Good (next x s))
    {s : σ} (hs : Good s) :
    rewriteAll visit parent (xs.map node) s =
        (xs.map new, none, xs.foldl (fun s x => next x s) s) ∧
      Good (xs.foldl (fun s x => next x s) s) := by
  induction xs generalizing s with
  | nil => exact ⟨rfl, hs⟩
  | cons x xs ih =>
    obtain ⟨hfirst, hgood⟩ := h x List.mem_cons_self s hs
    obtain ⟨hrest, hend⟩ := ih (fun y hy => h y (List.mem_cons_of_mem _ hy)) hgood
    refine ⟨?_, hend⟩
    rw [List.map_cons, rewriteAll, hfirst]
    simp [hrest]

/-! ## Two visits with the same replacements -/

section Alike

variable {τ : Type} {visit' : Visit τ} {R : σ → τ → Prop}

/-- Two visits put the same in the places of elements while their answers are related, and the
answers stay related. -/
def Alike (visit : Visit σ) (visit' : Visit τ) (R : σ → τ → Prop) : Prop :=
  ∀ s s', R s s' → ∀ p : PagePlace,
    PagePlace.replacement visit s p = PagePlace.replacement visit' s' p ∧
      R (PagePlace.answer visit s p) (PagePlace.answer visit' s' p)

mutual

theorem rewriteIn_of_alike (h : Alike visit visit' R) (parent : Option Tag) :
    ∀ (n : Node) {s : σ} {s' : τ}, R s s' →
      (rewriteIn visit parent n s).1 = (rewriteIn visit' parent n s').1 ∧
        (rewriteIn visit parent n s).2.1 = (rewriteIn visit' parent n s').2.1 ∧
        R (rewriteIn visit parent n s).2.2 (rewriteIn visit' parent n s').2.2
  | .text _, _, _, hs => ⟨rfl, rfl, hs⟩
  | .comment _, _, _, hs => ⟨rfl, rfl, hs⟩
  | .element tag children, s, s', hs => by
    obtain ⟨hown, hanswer⟩ := h s s' hs ⟨parent, tag, children⟩
    obtain ⟨hinside, hfrom, hend⟩ := rewriteAll_of_alike h (some tag) children hanswer
    simp only [PagePlace.replacement, PagePlace.answer] at hown hinside hfrom hend
    simp only [rewriteIn, hown, hinside, hfrom]
    exact ⟨trivial, trivial, hend⟩

theorem rewriteAll_of_alike (h : Alike visit visit' R) (parent : Option Tag) :
    ∀ (ns : List Node) {s : σ} {s' : τ}, R s s' →
      (rewriteAll visit parent ns s).1 = (rewriteAll visit' parent ns s').1 ∧
        (rewriteAll visit parent ns s).2.1 = (rewriteAll visit' parent ns s').2.1 ∧
        R (rewriteAll visit parent ns s).2.2 (rewriteAll visit' parent ns s').2.2
  | [], _, _, hs => ⟨rfl, rfl, hs⟩
  | n :: rest, s, s', hs => by
    obtain ⟨hn, hfirst, hanswer⟩ := rewriteIn_of_alike h parent n hs
    obtain ⟨hrest, hsecond, hend⟩ := rewriteAll_of_alike h parent rest hanswer
    simp only [rewriteAll, hn, hfirst, hrest, hsecond]
    exact ⟨trivial, trivial, hend⟩

end

/-- **Visits that are alike make the same page.** -/
theorem Page.rewrite_of_alike (h : Alike visit visit' R) (p : Page) {s : σ} {s' : τ}
    (hs : R s s') :
    (p.rewrite visit s).1 = (p.rewrite visit' s').1 ∧
      R (p.rewrite visit s).2 (p.rewrite visit' s').2 := by
  unfold Page.rewrite
  split
  · next tag children hroot =>
    obtain ⟨hown, hanswer⟩ := h s s' hs ⟨none, tag, children⟩
    obtain ⟨hinside, hfrom, hend⟩ := rewriteAll_of_alike h (some tag) children hanswer
    simp only [PagePlace.replacement, PagePlace.answer] at hown hinside hfrom hend
    simp only [hown, hinside, hfrom]
    exact ⟨trivial, hend⟩
  · exact ⟨rfl, hs⟩

end Alike

/-! ## Rewriting that does nothing -/

/-- A visit does something or is silent, and which of the two depends on what it knows only: if it
is idle after a place, it was silent there; and where it is silent, it replaces nothing, keeps what
it knows, and is idle after the place if it was before. -/
structure Rests {κ : Type} (visit : Visit σ) (Idle : σ → Prop) (known : σ → κ)
    (Silent : κ → PagePlace → Prop) : Prop where
  silent : ∀ s p, Idle (PagePlace.answer visit s p) → Silent (known s) p
  idle_iff : ∀ s p, Silent (known s) p → (Idle (PagePlace.answer visit s p) ↔ Idle s)
  known_eq : ∀ s p, Silent (known s) p → known (PagePlace.answer visit s p) = known s
  replacement_eq : ∀ s p, Silent (known s) p → PagePlace.replacement visit s p = {}

namespace Rests

variable {κ : Type} {Idle : σ → Prop} {known : σ → κ} {Silent : κ → PagePlace → Prop}

/-- A visit is idle after some places if it was before and is silent at each of them. -/
theorem idle_foldl_iff (h : Rests visit Idle known Silent) (places : List PagePlace) (s : σ) :
    Idle (places.foldl (PagePlace.answer visit) s) ↔ Idle s ∧ ∀ p ∈ places, Silent (known s) p := by
  induction places generalizing s with
  | nil => simp
  | cons p rest ih =>
    rw [List.foldl_cons, ih, List.forall_mem_cons]
    constructor
    · rintro ⟨hidle, hrest⟩
      have hp := h.silent s p hidle
      rw [h.known_eq s p hp] at hrest
      exact ⟨(h.idle_iff s p hp).1 hidle, hp, hrest⟩
    · rintro ⟨hs, hp, hrest⟩
      rw [h.known_eq s p hp]
      exact ⟨(h.idle_iff s p hp).2 hs, hrest⟩

mutual

theorem rewriteIn_eq (h : Rests visit Idle known Silent) {parent : Option Tag} {s : σ} :
    ∀ n : Node, Idle (rewriteIn visit parent n s).2.2 →
      (rewriteIn visit parent n s).1 = n ∧ (rewriteIn visit parent n s).2.1 = none
  | .text _, _ => ⟨rfl, rfl⟩
  | .comment _, _ => ⟨rfl, rfl⟩
  | .element tag children, hidle => by
    have hend : Idle (rewriteAll visit (some tag) children
        (visit parent tag children s).2).2.2 := hidle
    obtain ⟨hinside, hfrom⟩ := rewriteAll_eq h children hend
    rw [rewriteAll_answers, h.idle_foldl_iff] at hend
    have hown : (visit parent tag children s).1 = {} :=
      h.replacement_eq s ⟨parent, tag, children⟩ (h.silent s _ hend.1)
    rw [rewriteIn]
    simp [hown, hinside, hfrom]

theorem rewriteAll_eq (h : Rests visit Idle known Silent) {parent : Option Tag} {s : σ} :
    ∀ ns : List Node, Idle (rewriteAll visit parent ns s).2.2 →
      (rewriteAll visit parent ns s).1 = ns ∧ (rewriteAll visit parent ns s).2.1 = none
  | [], _ => ⟨rfl, rfl⟩
  | n :: rest, hidle => by
    have hend : Idle (rewriteAll visit parent rest (rewriteIn visit parent n s).2.2).2.2 := hidle
    obtain ⟨hrest, hsecond⟩ := rewriteAll_eq h rest hend
    rw [rewriteAll_answers, h.idle_foldl_iff] at hend
    obtain ⟨hn, hfirst⟩ := rewriteIn_eq h n hend.1
    rw [rewriteAll]
    simp [hn, hfirst, hrest, hsecond]

end

/-- **Rewriting does nothing exactly where the visit is silent everywhere**, and then the page
stays as it was. -/
theorem idle_rewrite_iff (h : Rests visit Idle known Silent) (p : Page) (s : σ) :
    Idle (p.rewrite visit s).2 ↔ Idle s ∧ ∀ q ∈ p.root.places none, Silent (known s) q := by
  rw [Page.rewrite_answers, h.idle_foldl_iff]

theorem page_rewrite_eq (h : Rests visit Idle known Silent) {p : Page} {s : σ}
    (hidle : Idle (p.rewrite visit s).2) : (p.rewrite visit s).1 = p := by
  unfold Page.rewrite at hidle ⊢
  split at hidle
  · next tag children hroot =>
    obtain ⟨hinside, hfrom⟩ := h.rewriteAll_eq children hidle
    have hend : Idle (rewriteAll visit (some tag) children
        (visit none tag children s).2).2.2 := hidle
    rw [rewriteAll_answers, h.idle_foldl_iff] at hend
    have hown : (visit none tag children s).1 = {} :=
      h.replacement_eq s ⟨none, tag, children⟩ (h.silent s _ hend.1)
    simp [hown, hinside, hfrom, ← hroot]
  · rfl

end Rests

end Rewrite

end Html
end DocHighlighter
