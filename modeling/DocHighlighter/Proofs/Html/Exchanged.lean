/-
# What a rewrite exchanges

Rewriting a page exchanges some of its elements and leaves the rest as it is
(`Page.exchanged_rewrite`).  An element is exchanged for what its own visit says, or
else for what the first visit of a child says about the element around it
(`PagePlace.exchange?`), in the state that the visits before it have led to
(`Exchanges`).  An element inside an exchanged one may be exchanged too; that does not
show on the page.

What holds before the first visit and is kept by every visit holds wherever an element
is exchanged (`Exchanges.exists_state`) and wherever a child decides on the element
around it (`exists_around`).
-/

import DocHighlighter.Proofs.Html.Places

namespace DocHighlighter
namespace Html

variable {σ : Type}

/-- What comes in the place of the element, if it is exchanged. -/
def PagePlace.exchange? (visit : Visit σ) (s : σ) (p : PagePlace) : Option Node :=
  (p.replacement visit s).own.orElse fun _ =>
    (rewriteAll visit (some p.tag) p.children (p.answer visit s)).2.1

/-- Of some places, visited one after the other, the element at one is exchanged for a node. -/
inductive Exchanges (visit : Visit σ) : List PagePlace → σ → PagePlace → Node → Prop
  | here {p : PagePlace} {rest : List PagePlace} {s : σ} {new : Node}
      (h : p.exchange? visit s = some new) : Exchanges visit (p :: rest) s p new
  | later {p q : PagePlace} {rest : List PagePlace} {s : σ} {new : Node}
      (h : Exchanges visit rest (q.answer visit s) p new) : Exchanges visit (q :: rest) s p new

mutual

/-- A node is another one in which elements are exchanged, each for a node that it is related to. -/
inductive Exchanged (R : PagePlace → Node → Prop) : Option Tag → Node → Node → Prop
  | text {parent : Option Tag} (content : List Char) :
      Exchanged R parent (.text content) (.text content)
  | comment {parent : Option Tag} (content : List Char) :
      Exchanged R parent (.comment content) (.comment content)
  | kept {parent : Option Tag} {tag : Tag} {children children' : List Node}
      (h : ExchangedAll R (some tag) children children') :
      Exchanged R parent (.element tag children) (.element tag children')
  | exchanged {p : PagePlace} {new : Node} (h : R p new) : Exchanged R p.parent p.node new

/-- So are nodes that stand side by side, one by one. -/
inductive ExchangedAll (R : PagePlace → Node → Prop) : Option Tag → List Node → List Node → Prop
  | nil {parent : Option Tag} : ExchangedAll R parent [] []
  | cons {parent : Option Tag} {n n' : Node} {rest rest' : List Node}
      (hn : Exchanged R parent n n') (hrest : ExchangedAll R parent rest rest') :
      ExchangedAll R parent (n :: rest) (n' :: rest')

end

mutual

theorem Exchanged.mono {R S : PagePlace → Node → Prop} {parent : Option Tag}
    (hmono : ∀ p new, R p new → S p new) : ∀ {n n' : Node},
      Exchanged R parent n n' → Exchanged S parent n n'
  | _, _, .text content => .text content
  | _, _, .comment content => .comment content
  | _, _, .kept h => .kept (ExchangedAll.mono hmono h)
  | _, _, .exchanged h => .exchanged (hmono _ _ h)

theorem ExchangedAll.mono {R S : PagePlace → Node → Prop} {parent : Option Tag}
    (hmono : ∀ p new, R p new → S p new) : ∀ {ns ns' : List Node},
      ExchangedAll R parent ns ns' → ExchangedAll S parent ns ns'
  | _, _, .nil => .nil
  | _, _, .cons hn hrest => .cons (Exchanged.mono hmono hn) (ExchangedAll.mono hmono hrest)

end

variable {visit : Visit σ} {p : PagePlace} {new : Node} {s : σ}

theorem Exchanges.append_left {ps : List PagePlace} (h : Exchanges visit ps s p new)
    (qs : List PagePlace) : Exchanges visit (ps ++ qs) s p new := by
  induction h with
  | here h => exact .here h
  | later _ ih => exact .later ih

theorem Exchanges.append_right {ps qs : List PagePlace}
    (h : Exchanges visit qs (ps.foldl (PagePlace.answer visit) s) p new) :
    Exchanges visit (ps ++ qs) s p new := by
  induction ps generalizing s with
  | nil => exact h
  | cons q ps ih => exact .later (ih h)

/-! ## The rest stays -/

section Rest

variable {R : PagePlace → Node → Prop}

mutual

theorem exchanged_rewriteIn (parent : Option Tag) : ∀ (n : Node) (s : σ),
    (∀ p new, Exchanges visit (n.places parent) s p new → R p new) →
      Exchanged R parent n (rewriteIn visit parent n s).1
  | .text content, _, _ => .text content
  | .comment content, _, _ => .comment content
  | .element tag children, s, h => by
    let here : PagePlace := ⟨parent, tag, children⟩
    have hnode : (rewriteIn visit parent (.element tag children) s).1 =
        (here.exchange? visit s).getD
          (.element tag (rewriteAll visit (some tag) children (here.answer visit s)).1) := rfl
    rw [hnode]
    cases hnew : here.exchange? visit s with
    | some new => exact .exchanged (p := here) (h here new (.here hnew))
    | none =>
      exact .kept (exchanged_rewriteAll (some tag) children (here.answer visit s)
        fun p new hp => h p new (.later hp))

theorem exchanged_rewriteAll (parent : Option Tag) : ∀ (ns : List Node) (s : σ),
    (∀ p new, Exchanges visit (Node.placesAll parent ns) s p new → R p new) →
      ExchangedAll R parent ns (rewriteAll visit parent ns s).1
  | [], _, _ => .nil
  | n :: rest, s, h => by
    refine .cons (exchanged_rewriteIn parent n s fun p new hp => h p new (hp.append_left _)) ?_
    refine exchanged_rewriteAll parent rest _ fun p new hp => h p new ?_
    rw [rewriteIn_answers] at hp
    exact hp.append_right

end

end Rest

/-- **Rewriting changes nothing but what it exchanges,** on a page that shows its root. -/
theorem Page.exchanged_rewrite {page : Page} (hshown : page.shown = none) (visit : Visit σ)
    (s : σ) :
    Exchanged (Exchanges visit (page.root.places none) s) none page.root
      ((page.rewrite visit s).1.shown.getD (page.rewrite visit s).1.root) := by
  cases hroot : page.root with
  | text content =>
    have hpage : (page.rewrite visit s).1 = page := by simp only [rewrite, hroot]
    rw [hpage, hshown, hroot]
    exact .text content
  | comment content =>
    have hpage : (page.rewrite visit s).1 = page := by simp only [rewrite, hroot]
    rw [hpage, hshown, hroot]
    exact .comment content
  | element tag children =>
    have hpage : (page.rewrite visit s).1.shown.getD (page.rewrite visit s).1.root =
        (rewriteIn visit none (.element tag children) s).1 := by
      simp only [rewrite, hroot, hshown, rewriteIn, Option.orElse_none]
    rw [hpage]
    exact exchanged_rewriteIn none _ s fun _ _ hp => hp

/-- Texts and comments are not visited. -/
theorem rewriteAll_append_of_tag? {parent : Option Tag} {before : List Node}
    (hbefore : ∀ n ∈ before, n.tag? = none) (rest : List Node) (s : σ) :
    (rewriteAll visit parent (before ++ rest) s).2 = (rewriteAll visit parent rest s).2 := by
  induction before with
  | nil => rfl
  | cons n before ih =>
    obtain ⟨hn, hrest⟩ := List.forall_mem_cons.1 hbefore
    cases n with
    | text content => exact ih hrest
    | comment content => exact ih hrest
    | element tag children => cases hn

/-! ## What holds where something is exchanged -/

section Kept

variable {Good : σ → Prop} (hgood : ∀ (s : σ) (p : PagePlace), Good s → Good (p.answer visit s))
include hgood

theorem good_foldl (places : List PagePlace) {s : σ} (hs : Good s) :
    Good (places.foldl (PagePlace.answer visit) s) := by
  induction places generalizing s with
  | nil => exact hs
  | cons p rest ih => exact ih (hgood s p hs)

/-- An exchanged element is one of those visited, and what every visit keeps holds there. -/
theorem Exchanges.exists_state {places : List PagePlace} (h : Exchanges visit places s p new)
    (hs : Good s) : p ∈ places ∧ ∃ s', Good s' ∧ p.exchange? visit s' = some new := by
  induction h with
  | here h => exact ⟨List.mem_cons_self, _, hs, h⟩
  | later _ ih =>
    obtain ⟨hmem, hstate⟩ := ih (hgood _ _ hs)
    exact ⟨List.mem_cons_of_mem _ hmem, hstate⟩

/-- What nodes say about the element around them, the visit of one of them says. -/
theorem exists_around {parent : Option Tag} {ns : List Node} (hs : Good s)
    (h : (rewriteAll visit parent ns s).2.1 = some new) :
    ∃ tag children s', Node.element tag children ∈ ns ∧ Good s' ∧
      (visit parent tag children s').1.around = some new := by
  induction ns generalizing s with
  | nil => cases h
  | cons n rest ih =>
    have hrest : Good (rewriteIn visit parent n s).2.2 := by
      rw [rewriteIn_answers]
      exact good_foldl hgood _ hs
    have hboth : ((rewriteIn visit parent n s).2.1.orElse fun _ =>
        (rewriteAll visit parent rest (rewriteIn visit parent n s).2.2).2.1) = some new := h
    cases hfirst : (rewriteIn visit parent n s).2.1 with
    | none =>
      rw [hfirst] at hboth
      obtain ⟨tag, children, s', hmem, hs', haround⟩ := ih hrest hboth
      exact ⟨tag, children, s', List.mem_cons_of_mem _ hmem, hs', haround⟩
    | some first =>
      rw [hfirst] at hboth
      obtain rfl : first = new := Option.some.inj hboth
      cases n with
      | text content => cases hfirst
      | comment content => cases hfirst
      | element tag children => exact ⟨tag, children, s, List.mem_cons_self, hs, hfirst⟩

end Kept

end Html
end DocHighlighter
