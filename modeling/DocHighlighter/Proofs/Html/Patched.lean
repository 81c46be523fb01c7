/-
# What a rewrite puts on a page

A rewrite visits elements inside of what it has just exchanged, so not all that it exchanges shows
on the page.  A patched node (`Patched`) is a node together with what was put into it: it says what the
node was (`Patched.old`), what it is (`Patched.new`) and what stands in it that was put there, in
order (`Patched.puts`).  Rewriting makes one (`patchedIn`).

If which elements are exchanged depends on the elements only, then what was put stands in the places
of the outermost of them (`Counts.map_fst_puts`).  So a count of visits agrees with what stands on
the page exactly in the following cases.

| who decides on an element | the count agrees if | |
|---|---|---|
| its own visit | no element that counts is in another one | `Node.outermost_eq_filter_iff` |
| the visits of its children | no more than one counts in it | `Node.countP_within` |
-/

import DocHighlighter.Proofs.Html.Exchanged
import Mathlib.Data.List.Basic

namespace DocHighlighter
namespace Html

/-! ## Patched nodes -/

/-- A node in which elements may have given place to others. -/
inductive Patched
  | text (content : List Char)
  | comment (content : List Char)
  | kept (tag : Tag) (children : List Patched)
  | put (p : PagePlace) (new : Node)

namespace Patched

mutual

/-- The node as it was. -/
def old : Patched → Node
  | text content => .text content
  | comment content => .comment content
  | kept tag children => .element tag (oldAll children)
  | put p _ => p.node

/-- Nodes side by side as they were. -/
def oldAll : List Patched → List Node
  | [] => []
  | n :: rest => n.old :: oldAll rest

end

mutual

/-- The node as it is. -/
def new : Patched → Node
  | text content => .text content
  | comment content => .comment content
  | kept tag children => .element tag (newAll children)
  | put _ new => new

/-- Nodes side by side as they are. -/
def newAll : List Patched → List Node
  | [] => []
  | n :: rest => n.new :: newAll rest

end

mutual

/-- What was put into the node, and where, in the order of the page. -/
def puts : Patched → List (PagePlace × Node)
  | text _ => []
  | comment _ => []
  | kept _ children => putsAll children
  | put p new => [(p, new)]

/-- What was put into nodes side by side. -/
def putsAll : List Patched → List (PagePlace × Node)
  | [] => []
  | n :: rest => n.puts ++ putsAll rest

end

end Patched

section Rewrite

variable {σ : Type} (visit : Visit σ)

mutual

/-- A node that is rewritten, with what is put into it. -/
def patchedIn (parent : Option Tag) : Node → σ → Patched
  | .text content, _ => .text content
  | .comment content, _ => .comment content
  | .element tag children, s =>
    match (⟨parent, tag, children⟩ : PagePlace).exchange? visit s with
    | some new => .put ⟨parent, tag, children⟩ new
    | none => .kept tag (patchedAll (some tag) children (visit parent tag children s).2)

/-- Nodes side by side that are rewritten. -/
def patchedAll (parent : Option Tag) : List Node → σ → List Patched
  | [], _ => []
  | n :: rest, s => patchedIn parent n s :: patchedAll parent rest (rewriteIn visit parent n s).2.2

end

mutual

theorem old_patchedIn (parent : Option Tag) : ∀ (n : Node) (s : σ),
    (patchedIn visit parent n s).old = n
  | .text _, _ => rfl
  | .comment _, _ => rfl
  | .element tag children, s => by
    rw [patchedIn]
    split
    · rfl
    · rw [Patched.old, oldAll_patchedAll (some tag) children]

theorem oldAll_patchedAll (parent : Option Tag) : ∀ (ns : List Node) (s : σ),
    Patched.oldAll (patchedAll visit parent ns s) = ns
  | [], _ => rfl
  | n :: rest, s => by
    rw [patchedAll, Patched.oldAll, old_patchedIn parent n, oldAll_patchedAll parent rest]

end

mutual

theorem new_patchedIn (parent : Option Tag) : ∀ (n : Node) (s : σ),
    (patchedIn visit parent n s).new = (rewriteIn visit parent n s).1
  | .text _, _ => rfl
  | .comment _, _ => rfl
  | .element tag children, s => by
    have hnode : (rewriteIn visit parent (.element tag children) s).1 =
        ((⟨parent, tag, children⟩ : PagePlace).exchange? visit s).getD
          (.element tag (rewriteAll visit (some tag) children (visit parent tag children s).2).1) :=
      rfl
    rw [patchedIn, hnode]
    split
    · next new hnew => rw [hnew, Patched.new, Option.getD_some]
    · next hnone => rw [hnone, Patched.new, newAll_patchedAll (some tag) children, Option.getD_none]

theorem newAll_patchedAll (parent : Option Tag) : ∀ (ns : List Node) (s : σ),
    Patched.newAll (patchedAll visit parent ns s) = (rewriteAll visit parent ns s).1
  | [], _ => rfl
  | n :: rest, s => by
    rw [patchedAll, Patched.newAll, new_patchedIn parent n, newAll_patchedAll parent rest]
    rfl

end

/-- What rewriting a page puts on it, and where: nothing is seen of it where something stands in the
place of the root already. -/
def Page.puts (page : Page) (s : σ) : List (PagePlace × Node) :=
  match page.shown with
  | some _ => []
  | none => (patchedIn visit none page.root s).puts

/-- **The page is the patched one,** on a page that shows its root. -/
theorem Page.new_patchedIn {page : Page} (hshown : page.shown = none) (s : σ) :
    (patchedIn visit none page.root s).new =
      (page.rewrite visit s).1.shown.getD (page.rewrite visit s).1.root := by
  rw [Html.new_patchedIn]
  cases hroot : page.root with
  | text content =>
    have hpage : (page.rewrite visit s).1 = page := by simp only [rewrite, hroot]
    rw [hpage, hshown, Option.getD_none, hroot]
    rfl
  | comment content =>
    have hpage : (page.rewrite visit s).1 = page := by simp only [rewrite, hroot]
    rw [hpage, hshown, Option.getD_none, hroot]
    rfl
  | element tag children =>
    simp only [rewrite, hroot, hshown, rewriteIn, Option.orElse_none]

end Rewrite

/-! ## Outermost elements -/

/-- The places inside an element. -/
def PagePlace.inside (p : PagePlace) : List PagePlace :=
  Node.placesAll (some p.tag) p.children

namespace Node

/-- The place of an element. -/
def place? (parent : Option Tag) : Node → Option PagePlace
  | text _ => none
  | comment _ => none
  | element tag children => some ⟨parent, tag, children⟩

theorem parent_of_place? {parent : Option Tag} {n : Node} {q : PagePlace}
    (h : n.place? parent = some q) : q.parent = parent := by
  cases n with
  | text content => cases h
  | comment content => cases h
  | element tag children => exact congrArg PagePlace.parent (Option.some.inj h).symm

/-- The places inside a node, without its own. -/
def within (parent : Option Tag) (n : Node) : List PagePlace :=
  ((n.place? parent).map PagePlace.inside).getD []

theorem places_eq (parent : Option Tag) (n : Node) :
    n.places parent = (n.place? parent).toList ++ n.within parent := by
  cases n <;> rfl

end Node

/-- The places of the children of an element. -/
def PagePlace.childPlaces (p : PagePlace) : List PagePlace :=
  p.children.filterMap (Node.place? (some p.tag))

namespace Node

variable (q : PagePlace → Bool)

mutual

/-- The outermost elements of a kind, in the order of the page. -/
def outermost (parent : Option Tag) : Node → List PagePlace
  | text _ => []
  | comment _ => []
  | element tag children =>
    if q ⟨parent, tag, children⟩ then [⟨parent, tag, children⟩]
    else outermostAll (some tag) children

/-- The outermost elements of a kind in nodes side by side. -/
def outermostAll (parent : Option Tag) : List Node → List PagePlace
  | [] => []
  | n :: rest => n.outermost parent ++ outermostAll parent rest

end

mutual

theorem outermost_sublist (parent : Option Tag) : ∀ n : Node,
    (n.outermost q parent).Sublist ((n.places parent).filter q)
  | .text _ => .slnil
  | .comment _ => .slnil
  | .element tag children => by
    rw [outermost, places]
    by_cases hq : q ⟨parent, tag, children⟩ = true
    · rw [if_pos hq, List.filter_cons_of_pos hq]
      exact (List.nil_sublist _).cons_cons _
    · rw [if_neg hq, List.filter_cons_of_neg hq]
      exact outermostAll_sublist (some tag) children

theorem outermostAll_sublist (parent : Option Tag) : ∀ ns : List Node,
    (outermostAll q parent ns).Sublist ((placesAll parent ns).filter q)
  | [] => .slnil
  | n :: rest => by
    rw [outermostAll, placesAll, List.filter_append]
    exact (outermost_sublist parent n).append (outermostAll_sublist parent rest)

end

/-- Parts of two lists are all of them if they are together. -/
theorem append_eq_append_iff_of_sublist {α : Type} {xs xs' ys ys' : List α} (hx : xs.Sublist xs')
    (hy : ys.Sublist ys') : xs ++ ys = xs' ++ ys' ↔ xs = xs' ∧ ys = ys' := by
  refine ⟨fun h => ?_, fun h => by rw [h.1, h.2]⟩
  have hlength := congrArg List.length h
  have hxle := hx.length_le
  have hyle := hy.length_le
  rw [List.length_append, List.length_append] at hlength
  exact List.append_inj h (by omega)

mutual

/-- **All elements of a kind are outermost exactly if none is inside another.** -/
theorem outermost_eq_filter_iff (parent : Option Tag) : ∀ n : Node,
    n.outermost q parent = (n.places parent).filter q ↔
      ∀ p ∈ n.places parent, q p = true → ∀ p' ∈ p.inside, q p' = false
  | .text _ => by simp [outermost, places]
  | .comment _ => by simp [outermost, places]
  | .element tag children => by
    have ih := outermostAll_eq_filter_iff (some tag) children
    rw [outermost, places, List.forall_mem_cons]
    by_cases hq : q ⟨parent, tag, children⟩ = true
    · rw [if_pos hq, List.filter_cons_of_pos hq, List.cons.injEq, eq_self, true_and,
        eq_comm, List.filter_eq_nil_iff]
      simp only [Bool.not_eq_true]
      refine ⟨fun h => ⟨fun _ => h, fun p hp hqp => ?_⟩, fun h => h.1 hq⟩
      rw [h p hp] at hqp
      cases hqp
    · rw [if_neg hq, List.filter_cons_of_neg hq, ih]
      exact (and_iff_right fun h => absurd h hq).symm

theorem outermostAll_eq_filter_iff (parent : Option Tag) : ∀ ns : List Node,
    outermostAll q parent ns = (placesAll parent ns).filter q ↔
      ∀ p ∈ placesAll parent ns, q p = true → ∀ p' ∈ p.inside, q p' = false
  | [] => by simp [outermostAll, placesAll]
  | n :: rest => by
    rw [outermostAll, placesAll, List.filter_append,
      append_eq_append_iff_of_sublist (outermost_sublist q parent n)
        (outermostAll_sublist q parent rest),
      outermost_eq_filter_iff parent n, outermostAll_eq_filter_iff parent rest,
      List.forall_mem_append]

end

/-! ## Elements with a child of a kind -/

mutual

/-- What is inside an element of a node is in the node. -/
theorem inside_sublist {parent : Option Tag} {p : PagePlace} : ∀ {n : Node},
    p ∈ n.places parent → p.inside.Sublist (n.places parent)
  | text _, hp => absurd hp List.not_mem_nil
  | comment _, hp => absurd hp List.not_mem_nil
  | element _ _, hp => by
    rcases List.mem_cons.1 hp with rfl | hp
    · exact (List.Sublist.refl _).cons _
    · exact (insideAll_sublist hp).cons _

theorem insideAll_sublist {parent : Option Tag} {p : PagePlace} : ∀ {ns : List Node},
    p ∈ placesAll parent ns → p.inside.Sublist (placesAll parent ns)
  | [], hp => absurd hp List.not_mem_nil
  | n :: rest, hp => by
    rcases List.mem_append.1 hp with hp | hp
    · exact (inside_sublist hp).trans (List.sublist_append_left _ _)
    · exact (insideAll_sublist hp).trans (List.sublist_append_right _ _)

end

variable {q}

theorem countP_placesAll (parent : Option Tag) (ns : List Node) :
    (placesAll parent ns).countP q =
      (ns.filterMap (place? parent)).countP q + (ns.flatMap (within parent)).countP q := by
  induction ns with
  | nil => rfl
  | cons n rest ih =>
    have hplace : ((n :: rest).filterMap (place? parent)).countP q =
        (n.place? parent).toList.countP q + (rest.filterMap (place? parent)).countP q := by
      cases hn : n.place? parent with
      | none => simp [hn]
      | some p => rw [List.filterMap_cons_some hn, ← List.singleton_append, List.countP_append,
          Option.toList_some]
    rw [placesAll, List.countP_append, ih, places_eq, List.countP_append, hplace,
      List.flatMap_cons, List.countP_append]
    omega

mutual

/-- **Of the elements with a child of a kind** there are no more outermost ones than there are
elements of the kind in the node; and as many exactly if no more than one is in each of them. -/
theorem countP_within (parent : Option Tag) : ∀ n : Node,
    (n.outermost (·.childPlaces.any q) parent).length ≤ (n.within parent).countP q ∧
      ((n.outermost (·.childPlaces.any q) parent).length = (n.within parent).countP q ↔
        ∀ p ∈ n.places parent, p.childPlaces.any q = true → p.inside.countP q ≤ 1)
  | .text _ => by simp [outermost, within, place?, places]
  | .comment _ => by simp [outermost, within, place?, places]
  | .element tag children => by
    let here : PagePlace := ⟨parent, tag, children⟩
    obtain ⟨hle, heq⟩ := countP_withinAll (some tag) children
    have hcount : here.inside.countP q =
        here.childPlaces.countP q + (children.flatMap (within (some tag))).countP q :=
      countP_placesAll (some tag) children
    have hwithin : (element tag children).within parent = here.inside := rfl
    rw [outermost, places, List.forall_mem_cons, hwithin]
    by_cases hq : here.childPlaces.any q = true
    · have hpos : 0 < here.childPlaces.countP q := by
        rwa [List.countP_pos_iff, ← List.any_eq_true]
      rw [if_pos hq, List.length_singleton]
      refine ⟨by omega, fun h => ⟨fun _ => Nat.le_of_eq h.symm, fun p hp _ => ?_⟩, fun h => ?_⟩
      · exact Nat.le_trans (insideAll_sublist hp).countP_le (Nat.le_of_eq h.symm)
      · have hone : here.inside.countP q ≤ 1 := h.1 hq
        omega
    · have hnone : here.childPlaces.countP q = 0 := by
        rw [List.countP_eq_zero]
        simpa [List.any_eq_true] using hq
      rw [if_neg hq, hcount, hnone, Nat.zero_add]
      exact ⟨hle, heq.trans (and_iff_right fun h => absurd h hq).symm⟩

theorem countP_withinAll (parent : Option Tag) : ∀ ns : List Node,
    (outermostAll (·.childPlaces.any q) parent ns).length ≤
        (ns.flatMap (within parent)).countP q ∧
      ((outermostAll (·.childPlaces.any q) parent ns).length =
          (ns.flatMap (within parent)).countP q ↔
        ∀ p ∈ placesAll parent ns, p.childPlaces.any q = true → p.inside.countP q ≤ 1)
  | [] => by simp [outermostAll, placesAll]
  | n :: rest => by
    obtain ⟨hle, heq⟩ := countP_within parent n
    obtain ⟨hle', heq'⟩ := countP_withinAll parent rest
    rw [outermostAll, placesAll, List.flatMap_cons, List.length_append, List.countP_append,
      List.forall_mem_append, ← heq, ← heq']
    omega

end

end Node

/-! ## Visits that count -/

/-- A visit decides by itself on some elements, and on the ones around some others; and it counts
these.  That is what it does if nothing has gone wrong after it, which means that nothing had gone
wrong before; something that it relies on holds in any case. -/
structure Counts {σ : Type} (visit : Visit σ) (Inv Good : σ → Prop) (count : σ → Nat)
    (own around : PagePlace → Bool) : Prop where
  inv : ∀ s p, Inv s → Inv (PagePlace.answer visit s p)
  good : ∀ s p, Good (PagePlace.answer visit s p) → Good s
  own_eq : ∀ s p, Inv s → Good (PagePlace.answer visit s p) →
    (PagePlace.replacement visit s p).own.isSome = own p
  around_eq : ∀ s p, Inv s → Good (PagePlace.answer visit s p) →
    (PagePlace.replacement visit s p).around.isSome = around p
  count_eq : ∀ s p, Inv s → Good (PagePlace.answer visit s p) →
    count (PagePlace.answer visit s p) = count s + if own p || around p then 1 else 0

namespace Counts

variable {σ : Type} {visit : Visit σ} {Inv Good : σ → Prop} {count : σ → Nat}
  {own around : PagePlace → Bool} (h : Counts visit Inv Good count own around)
include h

theorem inv_foldl (places : List PagePlace) {s : σ} (hs : Inv s) :
    Inv (places.foldl (PagePlace.answer visit) s) :=
  good_foldl h.inv places hs

theorem good_of_foldl (places : List PagePlace) {s : σ}
    (hend : Good (places.foldl (PagePlace.answer visit) s)) : Good s := by
  induction places generalizing s with
  | nil => exact hend
  | cons p rest ih => exact h.good s p (ih hend)

/-- What the visits rely on holds between two nodes side by side. -/
theorem inv_rewriteIn (parent : Option Tag) (n : Node) {s : σ} (hs : Inv s) :
    Inv (rewriteIn visit parent n s).2.2 := by
  rw [rewriteIn_answers]
  exact h.inv_foldl _ hs

/-- If nothing has gone wrong after nodes side by side, nothing had in front of them. -/
theorem good_of_rewriteAll (parent : Option Tag) (ns : List Node) {s : σ}
    (hend : Good (rewriteAll visit parent ns s).2.2) : Good s := by
  rw [rewriteAll_answers] at hend
  exact h.good_of_foldl _ hend

/-- **The count at the end is that of the elements that count.** -/
theorem count_foldl (places : List PagePlace) {s : σ} (hs : Inv s)
    (hend : Good (places.foldl (PagePlace.answer visit) s)) :
    count (places.foldl (PagePlace.answer visit) s) =
      count s + places.countP fun p => own p || around p := by
  induction places generalizing s with
  | nil => rfl
  | cons p rest ih =>
    rw [List.foldl_cons] at hend ⊢
    rw [ih (h.inv s p hs) hend, h.count_eq s p hs (h.good_of_foldl rest hend), List.countP_cons]
    omega

/-- Nodes side by side say something about the element around them if one of them does. -/
theorem isSome_rewriteAll (parent : Option Tag) (ns : List Node) {s : σ} (hs : Inv s)
    (hend : Good (rewriteAll visit parent ns s).2.2) :
    (rewriteAll visit parent ns s).2.1.isSome =
      (ns.filterMap (Node.place? parent)).any around := by
  induction ns generalizing s with
  | nil => rfl
  | cons n rest ih =>
    have hend' : Good (rewriteAll visit parent rest (rewriteIn visit parent n s).2.2).2.2 := hend
    have hfirst := h.inv_rewriteIn parent n hs
    have hgood := h.good_of_rewriteAll parent rest hend'
    have hboth : (rewriteAll visit parent (n :: rest) s).2.1 =
        (rewriteIn visit parent n s).2.1.or
          (rewriteAll visit parent rest (rewriteIn visit parent n s).2.2).2.1 :=
      Option.orElse_eq_or ..
    rw [hboth, Option.isSome_or, ih hfirst hend']
    cases n with
    | text content => rfl
    | comment content => rfl
    | element tag children =>
      rw [rewriteIn_answers, Node.places, List.foldl_cons] at hgood
      have hown := h.around_eq s ⟨parent, tag, children⟩ hs (h.good_of_foldl _ hgood)
      rw [List.filterMap_cons]
      exact congrArg (· || _) hown

/-- An element is exchanged if its own visit or that of a child says so. -/
theorem isSome_exchange? (p : PagePlace) {s : σ} (hs : Inv s)
    (hend : Good (rewriteAll visit (some p.tag) p.children (p.answer visit s)).2.2) :
    (p.exchange? visit s).isSome = (own p || p.childPlaces.any around) := by
  have hgood : Good (p.answer visit s) := h.good_of_rewriteAll _ _ hend
  rw [PagePlace.exchange?, Option.orElse_eq_or, Option.isSome_or, h.own_eq s p hs hgood,
    h.isSome_rewriteAll (some p.tag) p.children (h.inv s p hs) hend]
  rfl

mutual

/-- **What was put stands in the places of the outermost elements that are exchanged.** -/
theorem map_fst_puts (parent : Option Tag) : ∀ (n : Node) {s : σ}, Inv s →
    Good (rewriteIn visit parent n s).2.2 → (patchedIn visit parent n s).puts.map (·.1) =
      n.outermost (fun p => own p || p.childPlaces.any around) parent
  | .text _, _, _, _ => rfl
  | .comment _, _, _, _ => rfl
  | .element tag children, s, hs, hend => by
    have hsome := h.isSome_exchange? ⟨parent, tag, children⟩ hs hend
    have hinside := map_fst_putsAll (some tag) children (h.inv s ⟨parent, tag, children⟩ hs) hend
    rw [patchedIn, Node.outermost]
    split
    · next new hnew =>
      rw [hnew, Option.isSome_some] at hsome
      rw [if_pos hsome.symm]
      rfl
    · next hnone =>
      rw [hnone, Option.isSome_none] at hsome
      rw [if_neg (by simp [← hsome])]
      exact hinside

theorem map_fst_putsAll (parent : Option Tag) : ∀ (ns : List Node) {s : σ}, Inv s →
    Good (rewriteAll visit parent ns s).2.2 →
      (Patched.putsAll (patchedAll visit parent ns s)).map (·.1) =
        Node.outermostAll (fun p => own p || p.childPlaces.any around) parent ns
  | [], _, _, _ => rfl
  | n :: rest, s, hs, hend => by
    have hend' : Good (rewriteAll visit parent rest (rewriteIn visit parent n s).2.2).2.2 := hend
    have hfirst := h.inv_rewriteIn parent n hs
    have hgood := h.good_of_rewriteAll parent rest hend'
    rw [patchedAll, Patched.putsAll, List.map_append, map_fst_puts parent n hs hgood,
      map_fst_putsAll parent rest hfirst hend', Node.outermostAll]

end

omit h

/-- **A count of elements agrees with what was put on the page** exactly if the page shows its root
and no element that counts is inside another one, unless there is none at all. -/
theorem count_eq_length_puts_iff (h : Counts visit Inv Good count own fun _ => false) {page : Page}
    {s : σ} (hs : Inv s) (hzero : count s = 0) (hend : Good (page.rewrite visit s).2) :
    count (page.rewrite visit s).2 = (page.puts visit s).length ↔
      ∀ q ∈ page.root.places none, own q = true →
        page.shown = none ∧ ∀ q' ∈ q.inside, own q' = false := by
  have hdecides : (fun p : PagePlace => own p || p.childPlaces.any fun _ => false) = own := by
    funext p
    simp
  rw [Page.rewrite_answers] at hend ⊢
  rw [h.count_foldl _ hs hend, hzero, Nat.zero_add]
  simp only [Bool.or_false]
  unfold Page.puts
  cases page.shown with
  | some new => simp [List.countP_eq_zero]
  | none =>
    have hlength := congrArg List.length (h.map_fst_puts none page.root hs
      (by rwa [rewriteIn_answers]))
    rw [hdecides, List.length_map] at hlength
    dsimp only
    rw [hlength, List.countP_eq_length_filter, eq_comm]
    simp only [true_and]
    rw [← Node.outermost_eq_filter_iff]
    exact ⟨(Node.outermost_sublist own none page.root).eq_of_length, congrArg List.length⟩

/-- **A count of children agrees with what was put on the page** exactly if no more than one that
counts is in the element around it, on a page that shows its root. -/
theorem count_eq_length_puts_around_iff (h : Counts visit Inv Good count (fun _ => false) around)
    {page : Page} {s : σ} (hs : Inv s) (hzero : count s = 0)
    (hend : Good (page.rewrite visit s).2) (hshown : page.shown = none)
    (hroot : ∀ p : PagePlace, p.parent = none → around p = false) :
    count (page.rewrite visit s).2 = (page.puts visit s).length ↔
      ∀ q ∈ page.root.places none, q.childPlaces.any around = true →
        q.inside.countP around ≤ 1 := by
  rw [Page.rewrite_answers] at hend ⊢
  rw [h.count_foldl _ hs hend, hzero, Nat.zero_add]
  have hlength := congrArg List.length (h.map_fst_puts none page.root hs
    (by rwa [rewriteIn_answers]))
  have hown : ((page.root.place? none).toList).countP around = 0 := by
    rw [List.countP_eq_zero]
    intro p hp
    have hparent : p.parent = none := by
      cases hn : page.root with
      | text content => simp [hn, Node.place?] at hp
      | comment content => simp [hn, Node.place?] at hp
      | element tag children =>
        rw [hn, Node.place?, Option.toList_some, List.mem_singleton] at hp
        rw [hp]
    simp [hroot p hparent]
  simp only [Bool.false_or] at hlength ⊢
  rw [List.length_map] at hlength
  rw [Page.puts, hshown]
  dsimp only
  rw [hlength, Node.places_eq, List.countP_append, hown, Nat.zero_add, eq_comm,
    ← Node.places_eq]
  exact (Node.countP_within none page.root).2

end Counts

end Html
end DocHighlighter
