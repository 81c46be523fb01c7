/-
# What trees and open elements are built of

A page is built from its tokens: texts become texts, and start tags become tags, some of them more
than once, or with a name of their own.  A stock (`Stock`) says what start tags there are and what
tags may come of them; the texts are to be free of U+0000.  This file says what it means for the
pieces of a page to be built of a stock, and that nothing that is done with open elements brings in
anything else.

| piece | is built of a stock if |
|---|---|
| tree | its tags are of the stock, and no text has U+0000 (`Node.MadeOf`) |
| open elements | their tags and finished children are (`Stack.MadeOf`) |
| formatting that goes on | its tags are (`Open.MadeOf`) |
-/

import DocHighlighter.Html.Builder
import DocHighlighter.Proofs.Html.Places
import Mathlib.Data.List.Basic

namespace DocHighlighter
namespace Html

/-- The names of elements that are opened for others, or in the place of others. -/
def impliedNames : List String :=
  ["html", "head", "body", "p", "br", "img", "tbody", "tr", "colgroup"]

/-- Which tags a page may have, and which start tags it is built from, so that whatever is built
from the start tags has one of the tags. -/
structure Stock where
  tag : Tag → Prop
  start : String → List Attribute → Prop
  tag_of_start {name : String} {attributes : List Attribute} (h : start name attributes)
    (space : Space) : tag (Foreign.tag space name attributes)
  tag_of_implied {name name' : String} {attributes : List Attribute} (h : start name attributes)
    (hname : name' ∈ impliedNames) : tag ⟨name', attributes, .page⟩
  tag_of_bare {name : String} (h : name ∈ impliedNames) : tag ⟨name, [], .page⟩
  tag_of_more {t : Tag} {name : String} {attributes more : List Attribute} (htag : tag t)
    (h : start name attributes) (hmore : more ⊆ attributes) :
    tag { t with attributes := t.attributes ++ more }

variable {k : Stock}

/-- The tags of a tree are of a stock, and no text in it has a U+0000. -/
inductive Node.MadeOf (k : Stock) : Node → Prop
  | text {content : List Char} (h : '\x00' ∉ content) : MadeOf k (.text content)
  | comment (content : List Char) : MadeOf k (.comment content)
  | element {tag : Tag} {children : List Node} (htag : k.tag tag)
      (hchildren : ∀ n ∈ children, n.MadeOf k) : MadeOf k (.element tag children)

namespace Node

theorem MadeOf.of_element {tag : Tag} {children : List Node}
    (h : Node.MadeOf k (.element tag children)) : k.tag tag ∧ ∀ n ∈ children, n.MadeOf k := by
  cases h with
  | element htag hchildren => exact ⟨htag, hchildren⟩

theorem MadeOf.empty {tag : Tag} (htag : k.tag tag) : Node.MadeOf k (.element tag []) :=
  .element htag (List.forall_mem_nil _)

mutual

theorem MadeOf.of_mem_places {parent : Option Tag} {p : PagePlace} : ∀ {n : Node},
    n.MadeOf k → p ∈ n.places parent → p.node.MadeOf k
  | .text _, _, hp => absurd hp List.not_mem_nil
  | .comment _, _, hp => absurd hp List.not_mem_nil
  | .element tag children, h, hp => by
    rcases List.mem_cons.1 hp with rfl | hp
    · exact h
    · exact MadeOf.of_mem_placesAll h.of_element.2 hp

theorem MadeOf.of_mem_placesAll {parent : Option Tag} {p : PagePlace} : ∀ {ns : List Node},
    (∀ n ∈ ns, n.MadeOf k) → p ∈ placesAll parent ns → p.node.MadeOf k
  | [], _, hp => absurd hp List.not_mem_nil
  | n :: rest, h, hp => by
    rcases List.mem_append.1 hp with hp | hp
    · exact MadeOf.of_mem_places (h n List.mem_cons_self) hp
    · exact MadeOf.of_mem_placesAll (fun m hm => h m (List.mem_cons_of_mem _ hm)) hp

end

end Node

/-! ## Open elements -/

/-- An open element is built of a stock. -/
def Frame.MadeOf (k : Stock) (f : Frame) : Prop :=
  k.tag f.tag ∧ ∀ n ∈ f.children, n.MadeOf k

theorem Frame.MadeOf.node {f : Frame} (h : f.MadeOf k) : f.node.MadeOf k :=
  .element h.1 fun n hn => h.2 n (List.mem_reverse.1 hn)

theorem madeOf_push {n : Node} {children : List Node} (hn : n.MadeOf k)
    (h : ∀ m ∈ children, m.MadeOf k) : ∀ m ∈ push n children, m.MadeOf k := by
  unfold push
  split
  · next s t rest =>
    intro m hm
    rcases List.mem_cons.1 hm with rfl | hm
    · have ht : Node.MadeOf k (.text t) := h _ List.mem_cons_self
      cases hn with
      | text hs =>
        cases ht with
        | text ht => exact .text fun hmem => (List.mem_append.1 hmem).elim ht hs
    · exact h m (List.mem_cons_of_mem _ hm)
  · exact List.forall_mem_cons.2 ⟨hn, h⟩

namespace Stack

/-- The open elements are built of a stock. -/
def MadeOf (k : Stock) (s : Stack) : Prop :=
  ∀ f ∈ s, f.MadeOf k

variable {s : Stack} {n : Node}

theorem MadeOf.attachWithin (h : MadeOf k s) (hn : n.MadeOf k) : MadeOf k (s.attachWithin n) := by
  cases s with
  | nil => exact h
  | cons f rest =>
    obtain ⟨hf, hrest⟩ := List.forall_mem_cons.1 h
    exact List.forall_mem_cons.2 ⟨⟨hf.1, madeOf_push hn hf.2⟩, hrest⟩

theorem MadeOf.attachBeforeTable (h : MadeOf k s) (hn : n.MadeOf k) :
    MadeOf k (s.attachBeforeTable n) := by
  induction s with
  | nil => exact h
  | cons f rest ih =>
    cases rest with
    | nil => exact h.attachWithin hn
    | cons g rest =>
      obtain ⟨hf, hrest⟩ := List.forall_mem_cons.1 h
      rw [Stack.attachBeforeTable]
      split
      · exact List.forall_mem_cons.2 ⟨hf, MadeOf.attachWithin hrest hn⟩
      · exact List.forall_mem_cons.2 ⟨hf, ih hrest⟩

theorem madeOf_attachToHead {children : List Node} (h : ∀ m ∈ children, m.MadeOf k)
    (hn : n.MadeOf k) : ∀ m ∈ attachToHead n children, m.MadeOf k := by
  induction children with
  | nil => exact h
  | cons m rest ih =>
    obtain ⟨hm, hrest⟩ := List.forall_mem_cons.1 h
    cases m with
    | text content => exact List.forall_mem_cons.2 ⟨hm, ih hrest⟩
    | comment content => exact List.forall_mem_cons.2 ⟨hm, ih hrest⟩
    | element tag children =>
      rw [attachToHead]
      split
      · obtain ⟨htag, hchildren⟩ := hm.of_element
        refine List.forall_mem_cons.2 ⟨.element htag fun k hk => ?_, hrest⟩
        exact madeOf_push hn (fun j hj => hchildren j (List.mem_reverse.1 hj)) k
          (List.mem_reverse.1 hk)
      · exact List.forall_mem_cons.2 ⟨hm, ih hrest⟩

theorem MadeOf.attachHead (h : MadeOf k s) (hn : n.MadeOf k) : MadeOf k (s.attachHead n) := by
  induction s with
  | nil => exact h
  | cons f rest ih =>
    obtain ⟨hf, hrest⟩ := List.forall_mem_cons.1 h
    cases rest with
    | nil => exact List.forall_mem_cons.2 ⟨⟨hf.1, madeOf_attachToHead hf.2 hn⟩, hrest⟩
    | cons g rest => exact List.forall_mem_cons.2 ⟨hf, ih hrest⟩

theorem MadeOf.attach (h : MadeOf k s) (hn : n.MadeOf k) (home : Home) :
    MadeOf k (s.attach n home) := by
  cases home with
  | within => exact h.attachWithin hn
  | beforeTable => exact h.attachBeforeTable hn
  | head => exact h.attachHead hn

theorem MadeOf.pop (h : MadeOf k s) : MadeOf k s.pop := by
  cases s with
  | nil => exact h
  | cons f rest =>
    obtain ⟨hf, hrest⟩ := List.forall_mem_cons.1 h
    exact MadeOf.attach hrest hf.node f.home

theorem MadeOf.popMany (h : MadeOf k s) (n : Nat) : MadeOf k (popMany n s) := by
  induction n generalizing s with
  | zero => exact h
  | succ n ih => exact ih h.pop

end Stack

/-! ## Formatting that goes on -/

/-- A piece of formatting is built of a stock. -/
def Format.MadeOf (k : Stock) (e : Format) : Prop :=
  ∀ id tag, e = .element id tag → k.tag tag

theorem Format.madeOf_mark : Format.mark.MadeOf k :=
  fun _ _ h => absurd h (by simp)

theorem Format.madeOf_element {id : Nat} {tag : Tag} (h : k.tag tag) :
    (Format.element id tag).MadeOf k := by
  rintro _ _ ⟨⟩
  exact h

/-- Open elements and the formatting that goes on are built of a stock. -/
structure Open.MadeOf (k : Stock) (o : Open) : Prop where
  stack : o.stack.MadeOf k
  formatting : ∀ e ∈ o.formatting, e.MadeOf k

namespace Open

variable {o : Open} {tag : Tag}

theorem MadeOf.push (h : o.MadeOf k) (htag : k.tag tag) (home : Home) :
    (o.push tag home).MadeOf k :=
  ⟨List.forall_mem_cons.2 ⟨⟨htag, List.forall_mem_nil _⟩, h.stack⟩, h.formatting⟩

theorem MadeOf.mark (h : o.MadeOf k) : o.mark.MadeOf k :=
  ⟨h.stack, List.forall_mem_cons.2 ⟨Format.madeOf_mark, h.formatting⟩⟩

/-- Less formatting is built of what more is. -/
theorem MadeOf.of_subset (h : o.MadeOf k) {entries : List Format}
    (hsub : ∀ e ∈ entries, e ∈ o.formatting) :
    ({ o with formatting := entries } : Open).MadeOf k :=
  ⟨h.stack, fun e he => h.formatting e (hsub e he)⟩

theorem MadeOf.unmark (h : o.MadeOf k) : o.unmark.MadeOf k :=
  h.of_subset fun _ he =>
    (List.dropWhile_suffix _).subset (List.mem_of_mem_drop he)

theorem MadeOf.forget (h : o.MadeOf k) (id : Nat) : (o.forget id).MadeOf k :=
  h.of_subset fun _ he => List.mem_of_mem_filter he

theorem mem_of_mem_dropLast {p : Format → Bool} {entries : List Format} {e : Format}
    (h : e ∈ dropLast p entries) : e ∈ entries := by
  rcases List.mem_append.1 (List.mem_reverse.1 h) with h | h
  · exact List.mem_reverse.1 ((List.takeWhile_prefix _).subset h)
  · exact List.mem_reverse.1 ((List.dropWhile_suffix _).subset (List.mem_of_mem_drop h))

theorem MadeOf.pushFormat (h : o.MadeOf k) (htag : k.tag tag) (home : Home) :
    (o.pushFormat tag home).MadeOf k := by
  refine ⟨(h.push htag home).stack, List.forall_mem_cons.2 ⟨Format.madeOf_element htag, ?_⟩⟩
  intro e he
  rcases List.mem_append.1 he with he | he
  · have hrecent : e ∈ o.formatting.takeWhile (!·.isMark) := by
      split at he
      · exact mem_of_mem_dropLast he
      · exact he
    exact h.formatting e ((List.takeWhile_prefix _).subset hrecent)
  · exact h.formatting e ((List.dropWhile_suffix _).subset he)

theorem MadeOf.restartAll (home : Stack → Home) {lost : List Format} (h : o.MadeOf k)
    (hlost : ∀ e ∈ lost, e.MadeOf k) : (restartAll home lost o).MadeOf k := by
  induction lost generalizing o with
  | nil => exact h
  | cons e rest ih =>
    obtain ⟨he, hrest⟩ := List.forall_mem_cons.1 hlost
    cases e with
    | mark => exact ih h hrest
    | element id tag =>
      have htag : k.tag tag := he id tag rfl
      exact ih ⟨(h.push htag _).stack,
        List.forall_mem_cons.2 ⟨Format.madeOf_element htag, h.formatting⟩⟩ hrest

theorem MadeOf.restart (home : Stack → Home) (h : o.MadeOf k) : (o.restart home).MadeOf k := by
  refine MadeOf.restartAll home (h.of_subset fun e he => (List.dropWhile_suffix _).subset he) ?_
  exact fun e he => h.formatting e ((List.takeWhile_prefix _).subset (List.mem_reverse.1 he))

theorem MadeOf.onStack (h : o.MadeOf k) {s : Stack} (hs : s.MadeOf k) :
    ({ o with stack := s } : Open).MadeOf k :=
  ⟨hs, h.formatting⟩

theorem MadeOf.close (h : o.MadeOf k) (name : String) : (o.close name).MadeOf k := by
  unfold Open.close
  split
  · exact h
  · split
    · exact h.onStack (h.stack.popMany _)
    · exact h

theorem MadeOf.copyBetween {frames : List Frame} (hframes : ∀ f ∈ frames, f.MadeOf k) {n : Nat}
    (h : o.MadeOf k) : (∀ f ∈ (copyBetween n frames o).1, f.MadeOf k) ∧
      (copyBetween n frames o).2.2.MadeOf k := by
  induction frames generalizing n o with
  | nil => exact ⟨List.forall_mem_nil _, h⟩
  | cons f rest ih =>
    obtain ⟨hf, hrest⟩ := List.forall_mem_cons.1 hframes
    rw [Open.copyBetween]
    split
    · split
      · have hcopied : ({ o with
            formatting := o.formatting.map fun e =>
              if e.hasId f.id then .element o.nextId f.tag else e
            nextId := o.nextId + 1 } : Open).MadeOf k := by
          refine ⟨h.stack, fun e he => ?_⟩
          obtain ⟨e', he', rfl⟩ := List.mem_map.1 he
          split
          · exact Format.madeOf_element hf.1
          · exact h.formatting e' he'
        obtain ⟨hcopies, hopen⟩ := ih hrest (n := n + 1) hcopied
        refine ⟨List.forall_mem_cons.2 ⟨⟨hf.1, ?_⟩, hcopies⟩, hopen⟩
        exact List.forall_mem_nil _
      · exact ih hrest (h.forget f.id)
    · exact ih hrest h

theorem madeOf_settle {frames : List Frame} (h : ∀ f ∈ frames, f.MadeOf k) (home : Home) :
    ∀ f ∈ settle home frames, f.MadeOf k := by
  induction frames with
  | nil => exact h
  | cons f rest ih =>
    obtain ⟨hf, hrest⟩ := List.forall_mem_cons.1 h
    cases rest with
    | nil => exact List.forall_mem_cons.2 ⟨hf, hrest⟩
    | cons g rest => exact List.forall_mem_cons.2 ⟨hf, ih hrest⟩

theorem MadeOf.takeOut (home : Stack → Home) {inner between outer : Stack} {block format : Frame}
    (hinner : inner.MadeOf k) (hblock : block.MadeOf k) (hbetween : between.MadeOf k)
    (hformat : format.MadeOf k) (houter : outer.MadeOf k) (h : o.MadeOf k) :
    (takeOut home inner block between format outer o).MadeOf k := by
  obtain ⟨hcopies, hopen⟩ := MadeOf.copyBetween hbetween (n := 0) h
  have hentry : ∀ id, (Format.element id format.tag).MadeOf k :=
    fun _ => Format.madeOf_element hformat.1
  have haround : (between ++ format :: outer).MadeOf k :=
    List.forall_mem_append.2 ⟨hbetween, List.forall_mem_cons.2 ⟨hformat, houter⟩⟩
  have hblock' : ({ block with children := [] } : Frame).MadeOf k :=
    ⟨hblock.1, List.forall_mem_nil _⟩
  unfold Open.takeOut
  refine ⟨?_, ?_⟩
  · refine List.forall_mem_append.2 ⟨List.forall_mem_append.2 ⟨hinner, ?_⟩, ?_⟩
    · exact List.forall_mem_cons.2 ⟨⟨hformat.1, hblock.2⟩,
        madeOf_settle (List.forall_mem_cons.2 ⟨hblock', hcopies⟩) _⟩
    · exact haround.popMany _
  · intro e he
    dsimp only at he
    split at he
    · obtain ⟨e', he', rfl⟩ := List.mem_map.1 he
      split
      · exact hentry _
      · exact hopen.formatting e' he'
    · obtain ⟨e', he', hmem⟩ := List.mem_flatMap.1 he
      have hold : e'.MadeOf k := hopen.formatting e' (List.mem_of_mem_filter he')
      split at hmem
      · rcases List.mem_cons.1 hmem with rfl | hmem
        · exact hentry _
        · rwa [List.mem_singleton.1 hmem]
      · rwa [List.mem_singleton.1 hmem]

theorem MadeOf.adoptMany (home : Stack → Home) (name : String) (n : Nat) (h : o.MadeOf k) :
    (adoptMany home name n o).MadeOf k := by
  induction n generalizing o with
  | zero => exact h
  | succ n ih =>
    rw [Open.adoptMany]
    split
    · exact h.close name
    · exact h
    · next id tag _ =>
      split
      · exact h.forget id
      · next format outer hdrop =>
        have hrest : ∀ f ∈ format :: outer, f.MadeOf k := by
          rw [← hdrop]
          exact fun f hf => h.stack f ((List.dropWhile_suffix _).subset hf)
        obtain ⟨hformat, houter⟩ := List.forall_mem_cons.1 hrest
        have hinside : ∀ f ∈ (o.stack.takeWhile (·.id != id)).reverse, f.MadeOf k :=
          fun f hf => h.stack f ((List.takeWhile_prefix _).subset (List.mem_reverse.1 hf))
        dsimp only
        split
        · exact h
        · split
          · exact MadeOf.forget (h.onStack (h.stack.popMany _)) id
          · next block inner hblocks =>
            have hblock : ∀ f ∈ block :: inner, f.MadeOf k := by
              rw [← hblocks]
              exact fun f hf => hinside f ((List.dropWhile_suffix _).subset hf)
            obtain ⟨hblock, hinner⟩ := List.forall_mem_cons.1 hblock
            refine ih (MadeOf.takeOut home ?_ hblock ?_ hformat houter h)
            · exact fun f hf => hinner f (List.mem_reverse.1 hf)
            · exact fun f hf => hinside f
                ((List.takeWhile_prefix _).subset (List.mem_reverse.1 hf))

theorem MadeOf.adopt (home : Stack → Home) (name : String) (h : o.MadeOf k) :
    (o.adopt home name).MadeOf k := by
  unfold Open.adopt
  split
  · split
    · exact h.onStack h.stack.pop
    · exact h.adoptMany home name 8
  · exact h

end Open

end Html
end DocHighlighter
