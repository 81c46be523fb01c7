/-
# Substituting elements of a page

A rule gives some elements of a page a substitute.  `Node.substituted` puts substitutes in the
places of the outermost of these elements, and leaves the rest as it is: what is inside an element
with a substitute is gone with it.

Rewriting goes through a page with answers that grow on the way.  Where what a visit puts in the
place of an element does not depend on them (`Substitutes`), rewriting is substituting: a function
of the page as it was (`Page.rewrite_of_substitutes`).
-/

import DocHighlighter.Proofs.Html.Patched

namespace DocHighlighter
namespace Html

namespace Node

mutual

/-- A node in which the outermost elements with a substitute have given place to it. -/
def substituted (f : PagePlace → Option Node) (parent : Option Tag) : Node → Node
  | text content => text content
  | comment content => comment content
  | element tag children =>
    (f ⟨parent, tag, children⟩).getD (element tag (substitutedAll f (some tag) children))

/-- Nodes that stand side by side in which the outermost elements with a substitute have given
place to it. -/
def substitutedAll (f : PagePlace → Option Node) (parent : Option Tag) : List Node → List Node
  | [] => []
  | n :: rest => n.substituted f parent :: substitutedAll f parent rest

end

variable {f : PagePlace → Option Node} {parent : Option Tag}

theorem substituted_of_none {tag : Tag} {children : List Node}
    (h : f ⟨parent, tag, children⟩ = none) :
    (element tag children).substituted f parent =
      element tag (substitutedAll f (some tag) children) := by
  rw [substituted, h, Option.getD_none]

theorem substituted_of_some {tag : Tag} {children : List Node} {new : Node}
    (h : f ⟨parent, tag, children⟩ = some new) :
    (element tag children).substituted f parent = new := by
  rw [substituted, h, Option.getD_some]

end Node

variable {σ : Type} {visit : Visit σ} {f : PagePlace → Option Node} {Good : σ → Prop}

/-- Whatever the answers so far are, as long as they are good, a visit puts the substitute of an
element in its place, nothing in the place of the one around it, and the answers stay good. -/
def Substitutes (visit : Visit σ) (f : PagePlace → Option Node) (Good : σ → Prop)
    (p : PagePlace) : Prop :=
  ∀ s, Good s → p.replacement visit s = { own := f p } ∧ Good (p.answer visit s)

mutual

theorem rewriteIn_of_substitutes {parent : Option Tag} : ∀ (n : Node) {s : σ}, Good s →
    (∀ p ∈ n.places parent, Substitutes visit f Good p) →
      (rewriteIn visit parent n s).1 = n.substituted f parent ∧
        (rewriteIn visit parent n s).2.1 = none ∧ Good (rewriteIn visit parent n s).2.2
  | .text _, _, hs, _ => ⟨rfl, rfl, hs⟩
  | .comment _, _, hs, _ => ⟨rfl, rfl, hs⟩
  | .element tag children, s, hs, h => by
    obtain ⟨hown, hanswer⟩ := h ⟨parent, tag, children⟩ List.mem_cons_self s hs
    obtain ⟨hinside, hfrom, hend⟩ := rewriteAll_of_substitutes children hanswer
      fun p hp => h p (List.mem_cons_of_mem _ hp)
    simp only [PagePlace.replacement, PagePlace.answer] at hown hinside hfrom hend
    simp only [rewriteIn, hown, hinside, hfrom, Node.substituted, Option.orElse_eq_or,
      Option.or_none]
    exact ⟨trivial, trivial, hend⟩

theorem rewriteAll_of_substitutes {parent : Option Tag} : ∀ (ns : List Node) {s : σ}, Good s →
    (∀ p ∈ Node.placesAll parent ns, Substitutes visit f Good p) →
      (rewriteAll visit parent ns s).1 = Node.substitutedAll f parent ns ∧
        (rewriteAll visit parent ns s).2.1 = none ∧ Good (rewriteAll visit parent ns s).2.2
  | [], _, hs, _ => ⟨rfl, rfl, hs⟩
  | n :: rest, s, hs, h => by
    obtain ⟨hn, hfirst, hgood⟩ := rewriteIn_of_substitutes n hs
      fun p hp => h p (List.mem_append_left _ hp)
    obtain ⟨hrest, hsecond, hend⟩ := rewriteAll_of_substitutes rest hgood
      fun p hp => h p (List.mem_append_right _ hp)
    simp only [rewriteAll, hn, hfirst, hrest, hsecond, Node.substitutedAll, Option.orElse_none]
    exact ⟨trivial, trivial, hend⟩

end

/-- What rewriting makes of the root, and what it puts in its place. -/
theorem Page.rewrite_root_of_substitutes {page : Page} {tag : Tag} {children : List Node} {s : σ}
    (heq : page.root = .element tag children) (hs : Good s)
    (h : ∀ p ∈ page.root.places none, Substitutes visit f Good p) :
    (page.rewrite visit s).1 =
        { page with
          root := .element tag (Node.substitutedAll f (some tag) children)
          shown := page.shown.or (f ⟨none, tag, children⟩) } ∧
      Good (page.rewrite visit s).2 := by
  rw [heq] at h
  obtain ⟨hown, hanswer⟩ := h ⟨none, tag, children⟩ List.mem_cons_self s hs
  obtain ⟨hinside, hfrom, hend⟩ := rewriteAll_of_substitutes children hanswer
    fun p hp => h p (List.mem_cons_of_mem _ hp)
  simp only [PagePlace.replacement, PagePlace.answer] at hown hinside hfrom hend
  simp only [Page.rewrite, heq, hown, hinside, hfrom, Option.orElse_eq_or, Option.or_none]
  exact ⟨trivial, hend⟩

/-- **Rewriting is substituting,** if what a visit puts in the place of an element depends on that
element only and the root has no substitute. -/
theorem Page.rewrite_of_substitutes {page : Page} {s : σ} (hs : Good s)
    (h : ∀ p ∈ page.root.places none, Substitutes visit f Good p)
    (hroot : ∀ tag children, page.root = .element tag children →
      f ⟨none, tag, children⟩ = none) :
    (page.rewrite visit s).1 = { page with root := page.root.substituted f none } ∧
      Good (page.rewrite visit s).2 := by
  cases heq : page.root with
  | text content =>
    have hpage : page.rewrite visit s = (page, s) := by simp only [Page.rewrite, heq]
    rw [hpage, Node.substituted, ← heq]
    exact ⟨rfl, hs⟩
  | comment content =>
    have hpage : page.rewrite visit s = (page, s) := by simp only [Page.rewrite, heq]
    rw [hpage, Node.substituted, ← heq]
    exact ⟨rfl, hs⟩
  | element tag children =>
    obtain ⟨hpage, hend⟩ := rewrite_root_of_substitutes heq hs h
    have hnone := hroot tag children heq
    rw [hnone, Option.or_none] at hpage
    rw [Node.substituted_of_none hnone]
    exact ⟨hpage, hend⟩

/-! ## What is put -/

mutual

/-- What is put are the substitutes of the outermost elements that have one. -/
theorem puts_of_substitutes {parent : Option Tag} : ∀ (n : Node) {s : σ}, Good s →
    (∀ p ∈ n.places parent, Substitutes visit f Good p) →
      (patchedIn visit parent n s).puts =
        (n.outermost (fun p => (f p).isSome) parent).filterMap fun p => (f p).map (p, ·)
  | .text _, _, _, _ => rfl
  | .comment _, _, _, _ => rfl
  | .element tag children, s, hs, h => by
    obtain ⟨hown, hanswer⟩ := h ⟨parent, tag, children⟩ List.mem_cons_self s hs
    have hplaces : ∀ p ∈ Node.placesAll (some tag) children, Substitutes visit f Good p :=
      fun p hp => h p (List.mem_cons_of_mem _ hp)
    have hfrom := (rewriteAll_of_substitutes children hanswer hplaces).2.1
    have hexchange : (⟨parent, tag, children⟩ : PagePlace).exchange? visit s =
        f ⟨parent, tag, children⟩ := by
      rw [PagePlace.exchange?, hown, hfrom, Option.orElse_eq_or, Option.or_none]
    rw [patchedIn, Node.outermost, hexchange]
    cases hf : f ⟨parent, tag, children⟩ with
    | some new => simp [Patched.puts, hf]
    | none => exact putsAll_of_substitutes children hanswer hplaces

theorem putsAll_of_substitutes {parent : Option Tag} : ∀ (ns : List Node) {s : σ}, Good s →
    (∀ p ∈ Node.placesAll parent ns, Substitutes visit f Good p) →
      Patched.putsAll (patchedAll visit parent ns s) =
        (Node.outermostAll (fun p => (f p).isSome) parent ns).filterMap fun p =>
          (f p).map (p, ·)
  | [], _, _, _ => rfl
  | n :: rest, s, hs, h => by
    have hfirst : ∀ p ∈ n.places parent, Substitutes visit f Good p :=
      fun p hp => h p (List.mem_append_left _ hp)
    have hgood := (rewriteIn_of_substitutes n hs hfirst).2.2
    rw [patchedAll, Patched.putsAll, puts_of_substitutes n hs hfirst,
      putsAll_of_substitutes rest hgood fun p hp => h p (List.mem_append_right _ hp),
      Node.outermostAll, List.filterMap_append]

end

/-! ## Elements with a tag of a kind -/

section Count

variable (kind : Tag → Bool)

mutual

/-- **A page loses elements of a kind** by each of its substitutes: the one that gives place, and
those inside of it. -/
theorem countP_substituted (hkind : ∀ p, (f p).isSome = true → kind p.tag = true)
    (hnew : ∀ p new, f p = some new → ∀ q, (new.places q).countP (fun p => kind p.tag) = 0)
    (parent : Option Tag) : ∀ n : Node,
    (n.outermost (fun p => (f p).isSome) parent).length +
          ((n.substituted f parent).places parent).countP (fun p => kind p.tag) ≤
        (n.places parent).countP (fun p => kind p.tag) ∧
      ((n.outermost (fun p => (f p).isSome) parent).length +
            ((n.substituted f parent).places parent).countP (fun p => kind p.tag) =
          (n.places parent).countP (fun p => kind p.tag) ↔
        ∀ p ∈ n.outermost (fun p => (f p).isSome) parent, ∀ p' ∈ p.inside, kind p'.tag = false)
  | .text _ => by simp [Node.outermost, Node.substituted, Node.places]
  | .comment _ => by simp [Node.outermost, Node.substituted, Node.places]
  | .element tag children => by
    let here : PagePlace := ⟨parent, tag, children⟩
    have hplaces : (Node.element tag children).places parent = here :: here.inside := rfl
    rw [Node.outermost, hplaces, List.countP_cons]
    cases hf : f here with
    | some new =>
      have htag : kind here.tag = true := hkind here (by rw [hf]; rfl)
      rw [Node.substituted_of_some hf, if_pos (by rfl), hnew here new hf, htag, if_pos rfl,
        List.length_singleton, List.forall_mem_singleton]
      refine ⟨by omega, ?_⟩
      have hnone : here.inside.countP (fun p => kind p.tag) = 0 ↔
          ∀ p' ∈ here.inside, kind p'.tag = false := by simp [List.countP_eq_zero]
      rw [← hnone]
      omega
    | none =>
      obtain ⟨hle, heq⟩ := countP_substitutedAll hkind hnew (some tag) children
      have hinside : here.inside = Node.placesAll (some tag) children := rfl
      have htag : here.tag = tag := rfl
      rw [Node.substituted_of_none hf, Node.places, List.countP_cons, if_neg (by simp), ← heq,
        hinside, htag]
      omega

theorem countP_substitutedAll (hkind : ∀ p, (f p).isSome = true → kind p.tag = true)
    (hnew : ∀ p new, f p = some new → ∀ q, (new.places q).countP (fun p => kind p.tag) = 0)
    (parent : Option Tag) : ∀ ns : List Node,
    (Node.outermostAll (fun p => (f p).isSome) parent ns).length +
          (Node.placesAll parent (Node.substitutedAll f parent ns)).countP
            (fun p => kind p.tag) ≤
        (Node.placesAll parent ns).countP (fun p => kind p.tag) ∧
      ((Node.outermostAll (fun p => (f p).isSome) parent ns).length +
            (Node.placesAll parent (Node.substitutedAll f parent ns)).countP
              (fun p => kind p.tag) =
          (Node.placesAll parent ns).countP (fun p => kind p.tag) ↔
        ∀ p ∈ Node.outermostAll (fun p => (f p).isSome) parent ns, ∀ p' ∈ p.inside,
          kind p'.tag = false)
  | [] => by simp [Node.outermostAll, Node.substitutedAll, Node.placesAll]
  | n :: rest => by
    obtain ⟨hle, heq⟩ := countP_substituted hkind hnew parent n
    obtain ⟨hle', heq'⟩ := countP_substitutedAll hkind hnew parent rest
    rw [Node.outermostAll, Node.substitutedAll, Node.placesAll, Node.placesAll,
      List.length_append, List.countP_append, List.countP_append, List.forall_mem_append,
      ← heq, ← heq']
    omega

end

end Count

end Html
end DocHighlighter
