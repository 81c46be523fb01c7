/-
# How a body grows

In the body of a page, where nothing is cut off and no paragraph is open
(`Builder.InBody`), every token does one thing: a text or a finished node goes
behind the children of the innermost open element (`Builder.add`), a start tag
opens an element there, an end tag puts the innermost element, now finished, among
the children of the one around it.

Children are kept last one first, and a text goes on the text before it; as long
as no text follows a text (`Node.Separate`), adding nodes keeps them as they are
(`foldl_push`).
-/

import DocHighlighter.Html.Builder
import DocHighlighter.Proofs.Html.Reading
import Mathlib.Data.List.Chain

namespace DocHighlighter
namespace Html

namespace Node

/-- Whether a node is a text. -/
def isText : Node → Bool
  | text _ => true
  | comment _ => false
  | element _ _ => false

/-- No text follows a text. -/
def Separate (ns : List Node) : Prop :=
  ns.IsChain fun m n => m.isText = true → n.isText = false

end Node

theorem push_of_apart {n : Node} {children : List Node}
    (h : ∀ m ∈ children.head?, m.isText = true → n.isText = false) :
    push n children = n :: children := by
  unfold push
  split
  · next s t rest => exact absurd (h (.text t) rfl rfl) (by simp [Node.isText])
  · rfl

/-- Nodes among which no text follows a text are kept as they are. -/
theorem foldl_push {ns children : List Node}
    (h : Node.Separate (children.head?.toList ++ ns)) :
    ns.foldl (fun cs n => push n cs) children = ns.reverse ++ children := by
  induction ns generalizing children with
  | nil => rfl
  | cons n rest ih =>
    have hpush : push n children = n :: children := by
      refine push_of_apart fun m hm => ?_
      rw [Option.mem_def.1 hm] at h
      exact (List.isChain_cons_cons.1 h).1
    have hrest : Node.Separate ((n :: children).head?.toList ++ rest) := by
      cases hhead : children.head? with
      | none =>
        rw [hhead] at h
        exact h
      | some m =>
        rw [hhead] at h
        exact (List.isChain_cons_cons.1 h).2
    rw [List.foldl_cons, hpush, ih hrest]
    simp

theorem reverse_foldl_push {ns : List Node} (h : Node.Separate ns) :
    (ns.foldl (fun cs n => push n cs) []).reverse = ns := by
  have hpush : ns.foldl (fun cs n => push n cs) [] = ns.reverse ++ [] := foldl_push h
  rw [hpush, List.append_nil, List.reverse_reverse]

/-- Adding nodes changes only the innermost open element. -/
theorem foldl_attachWithin (f : Frame) (s : Stack) (ns : List Node) :
    ns.foldl (fun s n => Stack.attachWithin n s) (f :: s) =
      { f with children := ns.foldl (fun cs n => push n cs) f.children } :: s := by
  induction ns generalizing f with
  | nil => rfl
  | cons n rest ih => exact ih { f with children := push n f.children }

namespace Builder

/-- Puts nodes behind the children of the innermost open element. -/
def add (b : Builder) (ns : List Node) : Builder :=
  b.onStack fun s => ns.foldl (fun s n => s.attachWithin n) s

/-- The next element has another number. -/
def withNext (b : Builder) (id : Nat) : Builder :=
  { b with nextId := id }

/-- The page is in its body, at a place where no paragraph is open and no formatting has been cut
off; `formatted` says that some may go on. -/
structure InBody (formatted : Bool) (b : Builder) : Prop where
  mode : b.mode = .inBody
  textReading : b.textReading = none
  dropsNewline : b.dropsNewline = false
  outsideTable : b.outsideTable = false
  top : ∃ f s, b.stack = f :: s ∧ f.tag.space = .page
  noParagraph : ∀ f ∈ b.stack, f.isPage "p" = false
  settled : ∀ e ∈ b.formatting, b.isSettled e = true
  unformatted : formatted = false → b.formatting = []

section Steps

variable {b : Builder} {k : Bool}

theorem add_nil (b : Builder) : b.add [] = b := rfl

theorem add_add (b : Builder) (ms ns : List Node) : (b.add ms).add ns = b.add (ms ++ ns) := by
  simp only [add, onStack, List.foldl_append]

theorem add_withNext (b : Builder) (id : Nat) (ns : List Node) :
    (b.withNext id).add ns = (b.add ns).withNext id := rfl

theorem withNext_withNext (b : Builder) (i j : Nat) : (b.withNext i).withNext j = b.withNext j :=
  rfl

theorem withNext_nextId (b : Builder) : b.withNext b.nextId = b := rfl

theorem stack_add {f : Frame} {s : Stack} (hs : b.stack = f :: s) (ns : List Node) :
    (b.add ns).stack = { f with children := ns.foldl (fun cs n => push n cs) f.children } :: s := by
  have hadd : (b.add ns).stack = ns.foldl (fun s n => Stack.attachWithin n s) b.stack := rfl
  rw [hadd, hs, foldl_attachWithin]

/-- Adding nodes leaves the page where it is. -/
theorem InBody.add (h : b.InBody k) (ns : List Node) (id : Nat) :
    ((b.add ns).withNext id).InBody k := by
  obtain ⟨f, s, hs, hspace⟩ := h.top
  have hstack : ((b.add ns).withNext id).stack =
      { f with children := ns.foldl (fun cs n => push n cs) f.children } :: s := stack_add hs ns
  refine ⟨h.mode, h.textReading, h.dropsNewline, h.outsideTable, ⟨_, s, hstack, hspace⟩, ?_, ?_,
    h.unformatted⟩
  · intro g hg
    have hold := h.noParagraph
    rw [hs] at hold
    rw [hstack] at hg
    rcases List.mem_cons.1 hg with rfl | hg
    · exact hold f List.mem_cons_self
    · exact hold g (List.mem_cons_of_mem _ hg)
  · intro e he
    have hold := h.settled e he
    cases e with
    | mark => rfl
    | element i tag =>
      have hopen : (b.stack.any (·.id == i)) = true := hold
      have hnew : (((b.add ns).withNext id).stack.any (·.id == i)) = true := by
        rw [hs] at hopen
        rw [hstack]
        exact hopen
      exact hnew

theorem InBody.reading (h : b.InBody k) : b.reading = .markup false := by
  obtain ⟨f, s, hs, hspace⟩ := h.top
  simp [Builder.reading, h.textReading, hs, isForeign, hspace]

/-- In a body, a token counts as one there. -/
theorem InBody.step_eq (h : b.InBody k) (t : Token) : b.step t = b.inBody t := by
  obtain ⟨f, s, hs, hspace⟩ := h.top
  have hkeep : { b with dropsNewline := false } = b := by
    rw [← h.dropsNewline]
  have hstep : b.step t = if b.isInForeign t then b.inForeign t else b.byMode t := by
    simp only [step, h.dropsNewline, Bool.false_eq_true, if_false, hkeep]
  have hforeign : b.isInForeign t = false := by
    simp [isInForeign, hs, isForeign, hspace]
  rw [hstep, hforeign]
  simp only [Bool.false_eq_true, if_false, byMode, h.mode]

/-- In a body, no formatting has to be opened again. -/
theorem InBody.restart_eq (h : b.InBody k) : b.restart = b := by
  have htake : b.formatting.takeWhile (fun e => !b.isSettled e) = [] ∧
      b.formatting.dropWhile (fun e => !b.isSettled e) = b.formatting := by
    have hsettled := h.settled
    cases hf : b.formatting with
    | nil => exact ⟨rfl, rfl⟩
    | cons e rest =>
      rw [hf] at hsettled
      simp [hsettled e List.mem_cons_self]
  simp only [restart, onOpen, Open.restart, htake.1, htake.2, List.reverse_nil, Open.restartAll]

theorem InBody.home_eq (h : b.InBody k) : home b.outsideTable b.stack = .within := by
  obtain ⟨f, s, hs, -⟩ := h.top
  simp [home, hs, h.outsideTable]

/-- In a body, a node goes behind the children of the innermost element. -/
theorem InBody.insertNode_eq (h : b.InBody k) (n : Node) : b.insertNode n = b.add [n] := by
  have hstack : b.stack.attach n (home b.outsideTable b.stack) = b.stack.attachWithin n := by
    rw [h.home_eq]
    rfl
  simp only [insertNode, onStack, hstack, Builder.add, List.foldl_cons, List.foldl_nil]

/-- An element is open, with nothing in it yet. -/
def opened (b : Builder) (tag : Tag) : Builder :=
  { b with stack := ⟨tag, b.nextId, .within, []⟩ :: b.stack, nextId := b.nextId + 1 }

theorem InBody.insert_eq (h : b.InBody k) (tag : Tag) : b.insert tag = b.opened tag := by
  simp only [insert, onOpen, Open.push, h.home_eq, opened]

theorem InBody.opened (h : b.InBody k) {tag : Tag} (hspace : tag.space = .page)
    (hp : tag.name ≠ "p") : (b.opened tag).InBody k := by
  refine ⟨h.mode, h.textReading, h.dropsNewline, h.outsideTable, ⟨_, _, rfl, hspace⟩, ?_, ?_,
    h.unformatted⟩
  · intro f hf
    rcases List.mem_cons.1 hf with rfl | hf
    · simp [Frame.isPage, Tag.isPage, hp]
    · exact h.noParagraph f hf
  · intro e he
    have hold := h.settled e he
    cases e with
    | mark => rfl
    | element i other =>
      have hopen : (b.stack.any (·.id == i)) = true := hold
      have hnew : ((b.opened tag).stack.any (·.id == i)) = true := by
        simp [Builder.opened, hopen]
      exact hnew

/-- In a body, there is no paragraph to close. -/
theorem InBody.closeParagraph_eq (h : b.InBody k) : b.closeParagraph = b := by
  have hno : ∀ s : Stack, (∀ f ∈ s, f.isPage "p" = false) →
      Stack.isOpenWithin Frame.boundsParagraph (·.isPage "p") s = false := by
    intro s hs
    induction s with
    | nil => rfl
    | cons f rest ih =>
      simp [Stack.isOpenWithin, hs f List.mem_cons_self,
        ih fun g hg => hs g (List.mem_cons_of_mem _ hg)]
  simp [closeParagraph, closeWithin, isOpenWithin, hno b.stack h.noParagraph]

theorem stack_add_opened (b : Builder) (tag : Tag) (ns : List Node) :
    ((b.opened tag).add ns).stack =
      ⟨tag, b.nextId, .within, ns.foldl (fun cs n => push n cs) []⟩ :: b.stack :=
  foldl_attachWithin ..

/-- An element that holds nodes is closed: it goes among the children of the one around it. -/
theorem pop_add_opened (b : Builder) (tag : Tag) {ns : List Node} (hns : Node.Separate ns) :
    ((b.opened tag).add ns).onStack Stack.pop =
      (b.add [.element tag ns]).withNext (b.nextId + 1) := by
  have hpop : Stack.pop ((b.opened tag).add ns).stack =
      b.stack.attachWithin (.element tag ns) := by
    rw [stack_add_opened, Stack.pop, Frame.node, reverse_foldl_push hns]
    rfl
  simp only [onStack, hpop]
  rfl

/-! ## One token after the other -/

theorem run_of_next {c : Char} {rest tail : List Char} {t : Token}
    (h : Token.next b.reading c rest = (some t, tail)) :
    b.run (c :: rest) = (b.step t).run tail := by
  rw [run]
  split
  · next h' =>
    rw [h] at h'
    simp at h'
  · next h' =>
    rw [h] at h'
    obtain ⟨h₁, rfl⟩ := Prod.mk.inj h'
    obtain rfl := Option.some.inj h₁
    rfl

theorem run_nil (b : Builder) : b.run [] = b := by
  rw [run]

end Steps

end Builder
end Html
end DocHighlighter
