/-
# The texts of a tree

The texts below a node stand in the order of the page (`Node.texts`), so each has a number, and one
of them can be exchanged for another without a change to the elements around it (`Node.setText`).

An element has the texts in a row from one number on.  Numbering the places of a page by how many
texts come before them (`Node.numbered`) therefore tells which texts an element has
(`Node.drop_texts_of_numbered`), and of two elements either one is inside the other, or the later one
begins behind the texts of the earlier one (`Node.pairwise_numbered`).
-/

import DocHighlighter.Proofs.Html.Patched

namespace DocHighlighter
namespace Html
namespace Node

mutual

/-- The texts at and below a node, one for each text node, in the order of the page. -/
def texts : Node → List (List Char)
  | text content => [content]
  | comment _ => []
  | element _ children => textsAll children

/-- The texts at and below nodes that stand side by side. -/
def textsAll : List Node → List (List Char)
  | [] => []
  | n :: rest => n.texts ++ textsAll rest

end

mutual

theorem textContent_eq_flatten : ∀ n : Node, n.textContent = n.texts.flatten
  | text _ => List.flatten_singleton.symm
  | comment _ => rfl
  | element _ children => textContents_eq_flatten children

theorem textContents_eq_flatten : ∀ ns : List Node, textContents ns = (textsAll ns).flatten
  | [] => rfl
  | n :: rest => by
    rw [textContents, textContent_eq_flatten n, textContents_eq_flatten rest, textsAll,
      List.flatten_append]

end

/-! ## Exchanging one text -/

mutual

/-- Puts a text in the place of the one with number `k`. -/
def setText (k : Nat) (new : List Char) : Node → Node
  | text content => if k = 0 then text new else text content
  | comment content => comment content
  | element tag children => element tag (setTextIn k new children)

/-- The same for the texts of nodes that stand side by side. -/
def setTextIn (k : Nat) (new : List Char) : List Node → List Node
  | [] => []
  | n :: rest =>
    if k < n.texts.length then n.setText k new :: rest
    else n :: setTextIn (k - n.texts.length) new rest

end

mutual

theorem texts_setText (k : Nat) (new : List Char) : ∀ n : Node,
    (n.setText k new).texts = n.texts.set k new
  | text content => by
    rw [setText]
    cases k with
    | zero => rfl
    | succ k => rfl
  | comment _ => rfl
  | element _ children => textsAll_setTextIn k new children

theorem textsAll_setTextIn (k : Nat) (new : List Char) : ∀ ns : List Node,
    textsAll (setTextIn k new ns) = (textsAll ns).set k new
  | [] => rfl
  | n :: rest => by
    rw [setTextIn, textsAll, List.set_append]
    split
    · rw [textsAll, texts_setText k new n]
    · rw [textsAll, textsAll_setTextIn _ new rest]

end

/-! ## Numbered places -/

mutual

/-- The places at and below a node, each with the number of texts that come before it; there are
`first` before the node. -/
def numbered (first : Nat) (parent : Option Tag) : Node → List (Nat × PagePlace)
  | text _ => []
  | comment _ => []
  | element tag children =>
    (first, ⟨parent, tag, children⟩) :: numberedAll first (some tag) children

/-- The places at and below nodes that stand side by side. -/
def numberedAll (first : Nat) (parent : Option Tag) : List Node → List (Nat × PagePlace)
  | [] => []
  | n :: rest => n.numbered first parent ++ numberedAll (first + n.texts.length) parent rest

end

/-- Behind the texts of a numbered place. -/
def stop (p : Nat × PagePlace) : Nat :=
  p.1 + p.2.node.texts.length

mutual

theorem map_snd_numbered (first : Nat) (parent : Option Tag) : ∀ n : Node,
    (n.numbered first parent).map Prod.snd = n.places parent
  | text _ => rfl
  | comment _ => rfl
  | element tag children => by
    rw [numbered, List.map_cons, map_snd_numberedAll first (some tag) children, places]

theorem map_snd_numberedAll (first : Nat) (parent : Option Tag) : ∀ ns : List Node,
    (numberedAll first parent ns).map Prod.snd = placesAll parent ns
  | [] => rfl
  | n :: rest => by
    rw [numberedAll, List.map_append, map_snd_numbered first parent n,
      map_snd_numberedAll _ parent rest, placesAll]

end

section Within

variable {p : Nat × PagePlace}

mutual

/-- The texts of a place stand in a row from its number on. -/
theorem exists_texts_of_numbered {first : Nat} {parent : Option Tag} : ∀ {n : Node},
    p ∈ n.numbered first parent →
      ∃ before after, n.texts = before ++ p.2.node.texts ++ after ∧ p.1 = first + before.length
  | text _, h => absurd h List.not_mem_nil
  | comment _, h => absurd h List.not_mem_nil
  | element tag children, h => by
    rcases List.mem_cons.1 h with rfl | h
    · exact ⟨[], [], (List.append_nil _).symm, rfl⟩
    · exact exists_texts_of_numberedAll h

theorem exists_texts_of_numberedAll {first : Nat} {parent : Option Tag} : ∀ {ns : List Node},
    p ∈ numberedAll first parent ns →
      ∃ before after, textsAll ns = before ++ p.2.node.texts ++ after ∧
        p.1 = first + before.length
  | [], h => absurd h List.not_mem_nil
  | n :: rest, h => by
    rcases List.mem_append.1 h with h | h
    · obtain ⟨before, after, htexts, hfirst⟩ := exists_texts_of_numbered h
      exact ⟨before, after ++ textsAll rest, by rw [textsAll, htexts, List.append_assoc], hfirst⟩
    · obtain ⟨before, after, htexts, hfirst⟩ := exists_texts_of_numberedAll h
      refine ⟨n.texts ++ before, after, by simp [textsAll, htexts], ?_⟩
      rw [hfirst, List.length_append, Nat.add_assoc]

end

theorem le_of_numbered {first : Nat} {parent : Option Tag} {n : Node}
    (h : p ∈ n.numbered first parent) : first ≤ p.1 ∧ stop p ≤ first + n.texts.length := by
  obtain ⟨before, after, htexts, hfirst⟩ := exists_texts_of_numbered h
  simp only [stop, htexts, List.length_append]
  omega

theorem le_of_numberedAll {first : Nat} {parent : Option Tag} {ns : List Node}
    (h : p ∈ numberedAll first parent ns) :
    first ≤ p.1 ∧ stop p ≤ first + (textsAll ns).length := by
  obtain ⟨before, after, htexts, hfirst⟩ := exists_texts_of_numberedAll h
  simp only [stop, htexts, List.length_append]
  omega

/-- The texts of a place, picked from all texts. -/
theorem drop_texts_of_numbered {parent : Option Tag} {n : Node} (h : p ∈ n.numbered 0 parent) :
    (n.texts.drop p.1).take p.2.node.texts.length = p.2.node.texts := by
  obtain ⟨before, after, htexts, hfirst⟩ := exists_texts_of_numbered h
  rw [htexts, hfirst, Nat.zero_add, List.append_assoc, List.drop_left, List.take_left]

end Within

/-! ## One place inside another -/

/-- A numbered place is inside another. -/
structure IsInside (p p' : Nat × PagePlace) : Prop where
  mem : p'.2 ∈ p.2.inside
  first_le : p.1 ≤ p'.1
  stop_le : stop p' ≤ stop p

theorem isInside_of_mem {first : Nat} {parent : Option Tag} {tag : Tag} {children : List Node}
    {p' : Nat × PagePlace} (h : p' ∈ numberedAll first (some tag) children) :
    IsInside (first, ⟨parent, tag, children⟩) p' := by
  obtain ⟨hfirst, hstop⟩ := le_of_numberedAll h
  refine ⟨?_, hfirst, hstop⟩
  rw [PagePlace.inside, ← map_snd_numberedAll first]
  exact List.mem_map_of_mem h

mutual

/-- **Of two places** the later one is inside the earlier one, or begins behind its texts. -/
theorem pairwise_numbered (first : Nat) (parent : Option Tag) : ∀ n : Node,
    (n.numbered first parent).Pairwise fun p p' => IsInside p p' ∨ stop p ≤ p'.1
  | text _ => .nil
  | comment _ => .nil
  | element tag children =>
    .cons (fun _ h => .inl (isInside_of_mem h)) (pairwise_numberedAll first (some tag) children)

theorem pairwise_numberedAll (first : Nat) (parent : Option Tag) : ∀ ns : List Node,
    (numberedAll first parent ns).Pairwise fun p p' => IsInside p p' ∨ stop p ≤ p'.1
  | [] => .nil
  | n :: rest => by
    refine List.pairwise_append.2 ⟨pairwise_numbered first parent n,
      pairwise_numberedAll _ parent rest, fun p hp p' hp' => .inr ?_⟩
    exact Nat.le_trans (le_of_numbered hp).2 (le_of_numberedAll hp').1

end

mutual

/-- What is inside a place comes later, with a number of its own. -/
theorem exists_numbered_inside {p : Nat × PagePlace} {q : PagePlace} (hq : q ∈ p.2.inside)
    {first : Nat} {parent : Option Tag} : ∀ {n : Node}, p ∈ n.numbered first parent →
      ∃ p', p'.2 = q ∧ IsInside p p' ∧ [p, p'].Sublist (n.numbered first parent)
  | text _, h => absurd h List.not_mem_nil
  | comment _, h => absurd h List.not_mem_nil
  | element tag children, h => by
    rcases List.mem_cons.1 h with rfl | h
    · rw [PagePlace.inside, ← map_snd_numberedAll first] at hq
      obtain ⟨p', hp', rfl⟩ := List.mem_map.1 hq
      exact ⟨p', rfl, isInside_of_mem hp', (List.singleton_sublist.2 hp').cons_cons _⟩
    · obtain ⟨p', hp', hinside, hsub⟩ := exists_numberedAll_inside hq h
      exact ⟨p', hp', hinside, hsub.cons _⟩

theorem exists_numberedAll_inside {p : Nat × PagePlace} {q : PagePlace} (hq : q ∈ p.2.inside)
    {first : Nat} {parent : Option Tag} : ∀ {ns : List Node}, p ∈ numberedAll first parent ns →
      ∃ p', p'.2 = q ∧ IsInside p p' ∧ [p, p'].Sublist (numberedAll first parent ns)
  | [], h => absurd h List.not_mem_nil
  | n :: rest, h => by
    rcases List.mem_append.1 h with h | h
    · obtain ⟨p', hp', hinside, hsub⟩ := exists_numbered_inside hq h
      exact ⟨p', hp', hinside, hsub.trans (List.sublist_append_left _ _)⟩
    · obtain ⟨p', hp', hinside, hsub⟩ := exists_numberedAll_inside hq h
      exact ⟨p', hp', hinside, hsub.trans (List.sublist_append_right _ _)⟩

end

/-! ## What a text is of no account for -/

/-- What can be seen of a numbered place without reading: its tags and the numbers of its texts. -/
def outline (p : Nat × PagePlace) : Option Tag × Tag × Nat × Nat :=
  (p.2.parent, p.2.tag, p.1, p.2.node.texts.length)

mutual

/-- Exchanging a text changes no tag and no number. -/
theorem map_outline_setText (k : Nat) (new : List Char) (first : Nat) (parent : Option Tag) :
    ∀ n : Node, ((n.setText k new).numbered first parent).map outline =
      (n.numbered first parent).map outline
  | text content => by
    rw [setText]
    split <;> rfl
  | comment _ => rfl
  | element tag children => by
    have hcount : (textsAll (setTextIn k new children)).length = (textsAll children).length := by
      rw [textsAll_setTextIn, List.length_set]
    rw [setText, numbered, numbered, List.map_cons, List.map_cons,
      map_outline_setTextIn k new first (some tag) children]
    simp only [outline, PagePlace.node, texts, hcount]

theorem map_outline_setTextIn (k : Nat) (new : List Char) (first : Nat) (parent : Option Tag) :
    ∀ ns : List Node, (numberedAll first parent (setTextIn k new ns)).map outline =
      (numberedAll first parent ns).map outline
  | [] => rfl
  | n :: rest => by
    rw [setTextIn]
    split
    · rw [numberedAll, numberedAll, List.map_append, List.map_append,
        map_outline_setText k new first parent n, texts_setText, List.length_set]
    · rw [numberedAll, numberedAll, List.map_append, List.map_append,
        map_outline_setTextIn _ new _ parent rest]

end

end Node
end Html
end DocHighlighter
