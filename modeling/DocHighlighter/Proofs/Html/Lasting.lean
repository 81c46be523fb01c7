/-
# What is opened stays on the page

An element that has been opened can be closed, moved, split by formatting, and taken out of it, but
it is not lost: as long as the root is open, some element of the page has its tag, up to more
attributes.  A `Trait` is a property of tags that more attributes do not take away, and
`Stack.Holds` says that the open elements have one of the trait among them or in what is finished in
them.

| step | keeps the trait because |
|---|---|
| closing | what is closed goes to what is still open |
| opening, formatting | nothing is taken away |
| taking a block out of formatting | the block keeps its tag, a copy of the formatting its content |

Only what is closed last of all goes nowhere.  So the root is told apart by its number: it is the
first element that was opened, and every other one has a higher number.

What belongs into a closed head is lost if there is no head.  Behind the head of a page nothing goes
there (`Mode.isBehindHead`).
-/

import DocHighlighter.Proofs.Html.Root

namespace DocHighlighter
namespace Html

/-- A property of tags that more attributes do not take away. -/
structure Trait where
  holds : Tag → Prop
  more {t : Tag} (attributes : List Attribute) (h : holds t) :
    holds { t with attributes := t.attributes ++ attributes }

variable {k : Trait}

namespace Node

/-- Some element of a tree has a tag of a trait. -/
inductive Has (k : Trait) : Node → Prop
  | here {tag : Tag} {children : List Node} (h : k.holds tag) : Has k (.element tag children)
  | inside {tag : Tag} {children : List Node} {n : Node} (hn : n ∈ children) (h : Has k n) :
      Has k (.element tag children)

theorem has_element_iff {tag : Tag} {children : List Node} :
    Has k (.element tag children) ↔ k.holds tag ∨ ∃ n ∈ children, n.Has k := by
  constructor
  · intro h
    cases h with
    | here h => exact .inl h
    | inside hn h => exact .inr ⟨_, hn, h⟩
  · rintro (h | ⟨n, hn, h⟩)
    · exact .here h
    · exact .inside hn h

/-- An element with the trait is among the places of the tree. -/
theorem Has.exists_place {n : Node} (h : n.Has k) (parent : Option Tag) :
    ∃ q ∈ n.places parent, k.holds q.tag := by
  induction h generalizing parent with
  | here h => exact ⟨_, List.mem_cons_self, h⟩
  | inside hn _ ih =>
    obtain ⟨q, hq, h⟩ := ih (some _)
    refine ⟨q, List.mem_cons_of_mem _ ?_, h⟩
    rw [placesAll_eq_flatMap, List.mem_flatMap]
    exact ⟨_, hn, hq⟩

end Node

/-- A node that is put behind others does not take the place of an element. -/
theorem mem_push {m n : Node} {children : List Node} (hm : m.isText = false)
    (h : m = n ∨ m ∈ children) : m ∈ push n children := by
  unfold push
  split
  · next s t rest =>
    rcases h with rfl | h
    · cases hm
    · rcases List.mem_cons.1 h with rfl | h
      · cases hm
      · exact List.mem_cons_of_mem _ h
  · exact List.mem_cons.2 h

theorem Node.Has.isText {n : Node} (h : n.Has k) : n.isText = false := by
  cases h <;> rfl

/-- What counts of an open element where others are closed: its number and its home. -/
def Frame.outline (f : Frame) : Nat × Home :=
  (f.id, f.home)

theorem Frame.has_node_iff {f : Frame} :
    f.node.Has k ↔ k.holds f.tag ∨ ∃ n ∈ f.children, n.Has k := by
  simp only [Frame.node, Node.has_element_iff, List.mem_reverse]

namespace Stack

variable {s : Stack} {n : Node} {home : Home}

/-- The numbers and the homes of open elements. -/
def outline (s : Stack) : List (Nat × Home) :=
  s.map Frame.outline

/-- Some open element has a trait, or something that is finished in one. -/
def Has (k : Trait) (s : Stack) : Prop :=
  ∃ f ∈ s, f.node.Has k

theorem has_cons_iff {f : Frame} : Stack.Has k (f :: s) ↔ f.node.Has k ∨ s.Has k := by
  simp only [Stack.Has, List.mem_cons, exists_eq_or_imp]

/-- The first element that was opened is still open. -/
def HasFirst (s : Stack) : Prop :=
  ∃ a ∈ s.outline, a.1 = 0

/-- No element but the outermost one is the first that was opened, and none is to go to the head. -/
structure IsOrderly (s : Stack) : Prop where
  numbers : s.outline.Pairwise fun a _ => a.1 ≠ 0
  homes : ∀ a ∈ s.outline, a.2 ≠ .head

/-- As long as the first element is open, the trait is there. -/
structure Holds (k : Trait) (s : Stack) : Prop extends IsOrderly s where
  has : s.HasFirst → s.Has k

theorem IsOrderly.of_outline {s' : Stack} (h : s.IsOrderly) (hs : s'.outline = s.outline) :
    s'.IsOrderly :=
  ⟨hs ▸ h.numbers, hs ▸ h.homes⟩

theorem HasFirst.of_outline {s' : Stack} (h : s.HasFirst) (hs : s'.outline = s.outline) :
    s'.HasFirst := by
  unfold HasFirst
  rwa [hs]

theorem HasFirst.ne_nil (h : s.HasFirst) : s ≠ [] := by
  obtain ⟨a, ha, -⟩ := h
  rintro rfl
  cases ha

/-! ## Nodes are put in -/

theorem outline_attachWithin (n : Node) (s : Stack) : (s.attachWithin n).outline = s.outline := by
  cases s <;> rfl

@[simp]
theorem outline_attach (n : Node) (home : Home) (s : Stack) :
    (s.attach n home).outline = s.outline := by
  cases home with
  | within => exact outline_attachWithin n s
  | beforeTable =>
    show (s.attachBeforeTable n).outline = s.outline
    fun_induction attachBeforeTable n s with
    | case1 => rfl
    | case2 f => rfl
    | case3 f g rest h => exact congrArg (f.outline :: ·) (outline_attachWithin n (g :: rest))
    | case4 f g rest h ih => exact congrArg (f.outline :: ·) ih
  | head =>
    show (s.attachHead n).outline = s.outline
    fun_induction attachHead n s with
    | case1 => rfl
    | case2 f => rfl
    | case3 f g rest ih => exact congrArg (f.outline :: ·) ih

theorem has_attachWithin (hs : s ≠ []) (h : n.Has k ∨ s.Has k) : (s.attachWithin n).Has k := by
  cases s with
  | nil => exact absurd rfl hs
  | cons f rest =>
    have hmem : ∀ {m : Node}, m.Has k → m = n ∨ m ∈ f.children →
        (Stack.attachWithin n (f :: rest)).Has k := fun hm hn =>
      ⟨_, List.mem_cons_self, Frame.has_node_iff.2 (.inr ⟨_, mem_push hm.isText hn, hm⟩)⟩
    rw [has_cons_iff, Frame.has_node_iff] at h
    obtain hn | (htag | ⟨m, hm, h⟩) | ⟨g, hg, h⟩ := h
    · exact hmem hn (.inl rfl)
    · exact ⟨_, List.mem_cons_self, Frame.has_node_iff.2 (.inl htag)⟩
    · exact hmem h (.inr hm)
    · exact ⟨g, List.mem_cons_of_mem _ hg, h⟩

theorem has_attachBeforeTable (hs : s ≠ []) (h : n.Has k ∨ s.Has k) :
    (s.attachBeforeTable n).Has k := by
  fun_induction attachBeforeTable n s with
  | case1 => exact absurd rfl hs
  | case2 f => exact has_attachWithin hs h
  | case3 f g rest _ =>
    rw [has_cons_iff, or_left_comm] at h
    exact has_cons_iff.2 (h.imp_right (has_attachWithin (List.cons_ne_nil _ _)))
  | case4 f g rest _ ih =>
    rw [has_cons_iff, or_left_comm] at h
    exact has_cons_iff.2 (h.imp_right (ih (List.cons_ne_nil _ _)))

/-- A node that does not go to the head is put in somewhere, if anything is open. -/
theorem has_attach (hs : s ≠ []) (hhome : home ≠ .head) (h : n.Has k ∨ s.Has k) :
    (s.attach n home).Has k := by
  cases home with
  | within => exact has_attachWithin hs h
  | beforeTable => exact has_attachBeforeTable hs h
  | head => exact absurd rfl hhome

theorem outline_pop (s : Stack) : s.pop.outline = s.outline.tail := by
  cases s with
  | nil => rfl
  | cons f rest => exact outline_attach f.node f.home rest

theorem outline_popMany (n : Nat) (s : Stack) : (popMany n s).outline = s.outline.drop n := by
  induction n generalizing s with
  | zero => rfl
  | succ n ih => rw [popMany, ih, outline_pop, List.drop_tail]

namespace Holds

theorem attach (h : s.Holds k) (n : Node) (hhome : home ≠ .head) : (s.attach n home).Holds k := by
  refine ⟨h.of_outline (outline_attach n home s), fun hfirst => ?_⟩
  have hfirst := hfirst.of_outline (outline_attach n home s).symm
  exact has_attach hfirst.ne_nil hhome (.inr (h.has hfirst))

/-! ## Elements are closed -/

/-- **What is closed goes to what is still open.** -/
theorem pop (h : s.Holds k) : s.pop.Holds k := by
  cases s with
  | nil => exact h
  | cons f rest =>
    have hhome : f.home ≠ .head := h.homes f.outline List.mem_cons_self
    have houtline : (Stack.pop (f :: rest)).outline = outline rest := outline_pop (f :: rest)
    have hrest : IsOrderly rest :=
      ⟨(List.pairwise_cons.1 h.numbers).2, (List.forall_mem_cons.1 h.homes).2⟩
    refine ⟨hrest.of_outline houtline, fun hfirst => ?_⟩
    have hfirst := hfirst.of_outline houtline.symm
    obtain ⟨a, ha, hzero⟩ := id hfirst
    exact has_attach hfirst.ne_nil hhome
      (has_cons_iff.1 (h.has ⟨a, List.mem_cons_of_mem _ ha, hzero⟩))

theorem popMany (h : s.Holds k) (n : Nat) : (s.popMany n).Holds k := by
  induction n generalizing s with
  | zero => exact h
  | succ n ih => exact ih h.pop

end Holds

/-! ## Attributes are added -/

/-- More attributes change neither numbers nor homes. -/
theorem outline_modify (s : Stack) (i : Nat) {g : Frame → Frame}
    (hg : ∀ f, (g f).outline = f.outline) : Stack.outline (s.modify i g) = s.outline := by
  refine List.ext_getElem (by simp [outline]) fun n _ _ => ?_
  simp only [outline, List.getElem_map, List.getElem_modify]
  split
  · exact hg _
  · rfl

theorem Holds.modify (h : s.Holds k) (i : Nat) {g : Frame → Frame}
    (hg : ∀ f, (g f).outline = f.outline) (hhas : ∀ f : Frame, f.node.Has k → (g f).node.Has k) :
    Stack.Holds k (s.modify i g) := by
  have houtline := outline_modify s i hg
  refine ⟨h.of_outline houtline, fun hfirst => ?_⟩
  obtain ⟨f, hf, hfhas⟩ := h.has (hfirst.of_outline houtline.symm)
  obtain ⟨j, hj, rfl⟩ := List.mem_iff_getElem.1 hf
  have hj' : j < (s.modify i g).length := by simpa using hj
  refine ⟨(s.modify i g)[j], List.getElem_mem hj', ?_⟩
  rw [List.getElem_modify]
  split
  · exact hhas _ hfhas
  · exact hfhas

/-! ## Stacks that are put together -/

theorem outline_append (s s' : Stack) : Stack.outline (s ++ s') = s.outline ++ s'.outline :=
  List.map_append

/-- Closing an element, and whatever is further in, leaves what is further out. -/
theorem outline_popMany_append (inner outer : Stack) (f : Frame) :
    Stack.outline (popMany (inner.length + 1) (inner ++ f :: outer)) = outer.outline := by
  rw [outline_popMany, ← List.singleton_append, ← List.append_assoc, outline_append]
  exact List.drop_left' (by simp [outline])

theorem has_append_iff {s' : Stack} : Stack.Has k (s ++ s') ↔ s.Has k ∨ s'.Has k := by
  simp only [Stack.Has, List.mem_append, or_and_right, exists_or]

/-- Elements that are not the root, and that do not go to the head. -/
def IsNew (s : Stack) : Prop :=
  ∀ f ∈ s, f.id ≠ 0 ∧ f.home ≠ .head

theorem isOrderly_append {inner : Stack} (hinner : inner.IsNew) (h : s.IsOrderly) :
    IsOrderly (inner ++ s) := by
  induction inner with
  | nil => exact h
  | cons f inner ih =>
    obtain ⟨hf, hinner⟩ := List.forall_mem_cons.1 hinner
    obtain ⟨hnumbers, hhomes⟩ := ih hinner
    exact ⟨List.pairwise_cons.2 ⟨fun _ _ => hf.1, hnumbers⟩, List.forall_mem_cons.2 ⟨hf.2, hhomes⟩⟩

/-- Whatever is further in than another element is new. -/
theorem IsOrderly.split {inner : Stack} {f : Frame} (h : IsOrderly (inner ++ f :: s)) :
    inner.IsNew ∧ s.IsOrderly := by
  obtain ⟨hnumbers, hhomes⟩ := h
  rw [outline_append] at hnumbers hhomes
  obtain ⟨-, hrest, hbefore⟩ := List.pairwise_append.1 hnumbers
  obtain ⟨hinner, hhomes⟩ := List.forall_mem_append.1 hhomes
  refine ⟨fun g hg => ?_, (List.pairwise_cons.1 hrest).2, (List.forall_mem_cons.1 hhomes).2⟩
  have hg : g.outline ∈ inner.outline := List.mem_map_of_mem hg
  exact ⟨hbefore _ hg f.outline List.mem_cons_self, hinner _ hg⟩

/-- Elements are opened. -/
theorem holds_append {inner : Stack} (hinner : inner.IsNew) (h : s.IsOrderly)
    (hhas : s.HasFirst → Stack.Has k (inner ++ s)) : Stack.Holds k (inner ++ s) := by
  refine ⟨isOrderly_append hinner h, fun hfirst => hhas ?_⟩
  obtain ⟨a, ha, hzero⟩ := hfirst
  rw [outline_append] at ha
  refine ⟨a, (List.mem_append.1 ha).resolve_left fun ha => ?_, hzero⟩
  obtain ⟨f, hf, rfl⟩ := List.mem_map.1 ha
  exact (hinner f hf).1 hzero

end Stack

/-- The trait is on the page as long as the root is open, and elements that are opened from now on
are not the root. -/
structure Open.Keeps (k : Trait) (o : Open) : Prop extends Stack.Holds k o.stack where
  next : 0 < o.nextId

namespace Open

variable {o : Open} {home : Stack → Home}

/-- Formatting that goes on does not count. -/
theorem Keeps.format (h : o.Keeps k) (entries : List Format) :
    ({ o with formatting := entries } : Open).Keeps k :=
  ⟨h.toHolds, h.next⟩

theorem Keeps.onStack (h : o.Keeps k) {s : Stack} (hs : s.Holds k) :
    ({ o with stack := s } : Open).Keeps k :=
  ⟨hs, h.next⟩

theorem Keeps.push (h : o.Keeps k) (tag : Tag) {home : Home} (hhome : home ≠ .head) :
    (o.push tag home).Keeps k := by
  have hnew : Stack.IsNew [⟨tag, o.nextId, home, []⟩] :=
    List.forall_mem_singleton.2 ⟨h.next.ne', hhome⟩
  exact ⟨Stack.holds_append hnew h.toIsOrderly fun hfirst =>
    Stack.has_append_iff.2 (.inr (h.has hfirst)), Nat.succ_pos _⟩

theorem Keeps.pushFormat (h : o.Keeps k) (tag : Tag) {home : Home} (hhome : home ≠ .head) :
    (o.pushFormat tag home).Keeps k :=
  (h.push tag hhome).format _

theorem Keeps.restartAll (hhome : ∀ s, home s ≠ .head) {lost : List Format} (h : o.Keeps k) :
    (restartAll home lost o).Keeps k := by
  induction lost generalizing o with
  | nil => exact h
  | cons e rest ih =>
    cases e with
    | mark => exact ih h
    | element id tag => exact ih ((h.push tag (hhome o.stack)).format _)

theorem Keeps.restart (hhome : ∀ s, home s ≠ .head) (h : o.Keeps k) : (o.restart home).Keeps k :=
  (h.format _).restartAll hhome

theorem Keeps.close (h : o.Keeps k) (name : String) : (o.close name).Keeps k := by
  unfold Open.close
  split
  · exact h
  · split
    · exact h.onStack (h.popMany _)
    · exact h

/-! ## Formatting that ends out of order -/

/-- Copies of formatting have numbers of their own. -/
theorem isNew_copyBetween (n : Nat) (frames : List Frame) {o : Open} (hnext : 0 < o.nextId) :
    Stack.IsNew (copyBetween n frames o).1 ∧ 0 < (copyBetween n frames o).2.2.nextId := by
  induction frames generalizing n o with
  | nil => exact ⟨List.forall_mem_nil _, hnext⟩
  | cons f rest ih =>
    rw [Open.copyBetween]
    split
    · split
      · obtain ⟨hcopies, hnext'⟩ := ih (n + 1) (o := { o with
            formatting := o.formatting.map fun e =>
              if e.hasId f.id then .element o.nextId f.tag else e
            nextId := o.nextId + 1 }) (Nat.succ_pos _)
        exact ⟨List.forall_mem_cons.2 ⟨⟨hnext.ne', Home.noConfusion⟩, hcopies⟩, hnext'⟩
      · exact ih (n + 1) (o := o.forget f.id) hnext
    · exact ih (n + 1) hnext

theorem isNew_settle {home : Home} (hhome : home ≠ .head) {frames : List Frame}
    (h : Stack.IsNew frames) : Stack.IsNew (settle home frames) := by
  induction frames with
  | nil => exact h
  | cons f rest ih =>
    obtain ⟨hf, hrest⟩ := List.forall_mem_cons.1 h
    cases rest with
    | nil => exact List.forall_mem_singleton.2 ⟨hf.1, hhome⟩
    | cons g rest => exact List.forall_mem_cons.2 ⟨hf, ih hrest⟩

theorem exists_settle (home : Home) {frames : List Frame} {f : Frame} (hf : f ∈ frames) :
    ∃ g ∈ settle home frames, g.tag = f.tag := by
  induction frames with
  | nil => cases hf
  | cons f' rest ih =>
    cases rest with
    | nil =>
      obtain rfl := List.mem_singleton.1 hf
      exact ⟨_, List.mem_cons_self, rfl⟩
    | cons g rest =>
      rcases List.mem_cons.1 hf with rfl | hf
      · exact ⟨_, List.mem_cons_self, rfl⟩
      · obtain ⟨g', hg', htag⟩ := ih hf
        exact ⟨g', List.mem_cons_of_mem _ hg', htag⟩

/-- **A block that is taken out of formatting** keeps its tag, and a copy of the formatting gets its
content. -/
theorem Keeps.takeOut (hhome : ∀ s, home s ≠ .head) {inner between outer : Stack}
    {block format : Frame} (h : Stack.Holds k (inner ++ block :: (between ++ format :: outer)))
    (hnext : 0 < o.nextId) : (takeOut home inner block between format outer o).Keeps k := by
  obtain ⟨hcopies, hnext'⟩ := isNew_copyBetween 0 between hnext
  have hsplit : inner ++ block :: (between ++ format :: outer) =
      (inner ++ block :: between) ++ format :: outer := by simp
  have horder := h.toIsOrderly
  obtain ⟨hinner, htail⟩ := horder.split
  rw [hsplit] at horder
  obtain ⟨hfront, houter⟩ := horder.split
  have hblock : Stack.IsNew [⟨block.tag, block.id, block.home, []⟩] :=
    List.forall_mem_singleton.2 (hfront block (List.mem_append_right _ List.mem_cons_self))
  -- closing what is around the block leaves what is outside of the formatting
  have hclosed := Stack.outline_popMany_append between outer format
  have hkept : Stack.Has k (between ++ format :: outer) → outer.HasFirst →
      Stack.Has k (Stack.popMany (between.length + 1) (between ++ format :: outer)) :=
    fun hhas hfirst => (Stack.Holds.popMany ⟨htail, fun _ => hhas⟩ _).has
      (hfirst.of_outline hclosed)
  rcases hcopy : copyBetween 0 between o with ⟨copies, first, o'⟩
  rw [hcopy] at hcopies hnext'
  unfold Open.takeOut
  rw [hcopy]
  generalize Stack.popMany (between.length + 1) (between ++ format :: outer) = outside
    at hclosed hkept ⊢
  have hmoved := isNew_settle (hhome outside) (List.forall_mem_append.2 ⟨hblock, hcopies⟩)
  have hnew : Stack.IsNew (inner ++ ⟨format.tag, o'.nextId, .within, block.children⟩ ::
      settle (home outside) (⟨block.tag, block.id, block.home, []⟩ :: copies)) :=
    List.forall_mem_append.2
      ⟨hinner, List.forall_mem_cons.2 ⟨⟨hnext'.ne', Home.noConfusion⟩, hmoved⟩⟩
  refine ⟨Stack.holds_append hnew (houter.of_outline hclosed) fun hfirst => ?_, Nat.succ_pos _⟩
  have hfirst := hfirst.of_outline hclosed.symm
  have hall : Stack.Has k (inner ++ block :: (between ++ format :: outer)) := by
    obtain ⟨a, ha, hzero⟩ := hfirst
    refine h.has ⟨a, ?_, hzero⟩
    rw [hsplit, Stack.outline_append]
    exact List.mem_append_right _ (List.mem_cons_of_mem _ ha)
  rw [Stack.has_append_iff, Stack.has_cons_iff, Frame.has_node_iff] at hall
  simp only [Stack.has_append_iff, Stack.has_cons_iff, Frame.has_node_iff]
  obtain hhas | (htag | hhas) | hhas := hall
  · exact .inl (.inl hhas)
  · obtain ⟨f, hf, hsame⟩ := exists_settle (home outside)
      (List.mem_cons_self (a := (⟨block.tag, block.id, block.home, []⟩ : Frame)) (l := copies))
    exact .inl (.inr (.inr ⟨f, hf, Frame.has_node_iff.2 (.inl (hsame ▸ htag))⟩))
  · exact .inl (.inr (.inl (.inr hhas)))
  · exact .inr (hkept hhas hfirst)

theorem Keeps.adoptMany (hhome : ∀ s, home s ≠ .head) (name : String) (n : Nat) (h : o.Keeps k) :
    (adoptMany home name n o).Keeps k := by
  induction n generalizing o with
  | zero => exact h
  | succ n ih =>
    rw [Open.adoptMany]
    split
    · exact h.close name
    · exact h
    · next id tag _ =>
      split
      · exact h.format _
      · next format outer hdrop =>
        have hstack := List.takeWhile_append_dropWhile (p := fun f : Frame => f.id != id)
          (l := o.stack)
        rw [hdrop] at hstack
        dsimp only
        split
        · exact h
        · split
          · exact (h.onStack (h.popMany _)).format _
          · next block inner hblocks =>
            -- the block is the outermost one inside of the formatting
            have hinside := List.takeWhile_append_dropWhile (p := (!Frame.isSpecial ·))
              (l := (o.stack.takeWhile fun f => f.id != id).reverse)
            rw [hblocks, ← List.reverse_inj, List.reverse_append, List.reverse_reverse,
              List.reverse_cons, List.append_assoc] at hinside
            rw [← hinside, List.append_assoc] at hstack
            exact ih (Keeps.takeOut hhome (hstack.symm ▸ h.toHolds) h.next)

theorem Keeps.adopt (hhome : ∀ s, home s ≠ .head) (name : String) (h : o.Keeps k) :
    (o.adopt home name).Keeps k := by
  unfold Open.adopt
  split
  · split
    · exact h.onStack h.pop
    · exact h.adoptMany hhome name 8
  · exact h

end Open

/-! ## The page that is being built -/

/-- Whether the head of the page is behind, outside of text. -/
def Mode.isBehindHead : Mode → Bool
  | inBody | inTable | inCaption | inColumns | inTableBody | inRow | inCell => true
  | afterBody | afterRoot => true
  | _ => false

namespace Builder

variable {b b' : Builder} {tag : Tag} {t : Token}

theorem home_ne_head (outsideTable : Bool) (s : Stack) : home outsideTable s ≠ .head := by
  cases s with
  | nil => exact Home.noConfusion
  | cons f rest =>
    dsimp only [home]
    split <;> exact Home.noConfusion

/-- The trait is on the page, and the head is behind. -/
structure BehindHead (k : Trait) (b : Builder) : Prop extends Open.Keeps k b.toOpen where
  mode : b.mode.isBehindHead = true

/-- The trait is on the page, and the head is behind or will be when text ends. -/
structure Lasts (k : Trait) (b : Builder) : Prop extends Open.Keeps k b.toOpen where
  mode : b.mode.isBehindHead = true ∨ b.mode = .inText ∧ b.resume.isBehindHead = true

theorem BehindHead.lasts (h : b.BehindHead k) : b.Lasts k :=
  ⟨h.toKeeps, .inl h.mode⟩

theorem Lasts.onStack (h : b.Lasts k) {f : Stack → Stack} (hf : (f b.stack).Holds k) :
    (b.onStack f).Lasts k :=
  ⟨h.toKeeps.onStack hf, h.mode⟩

namespace BehindHead

theorem onOpen (h : b.BehindHead k) {f : Open → Open}
    (hf : ∀ {o : Open}, o.Keeps k → (f o).Keeps k) : (b.onOpen f).BehindHead k :=
  ⟨hf h.toKeeps, h.mode⟩

theorem onStack (h : b.BehindHead k) {f : Stack → Stack}
    (hf : ∀ {s : Stack}, s.Holds k → (f s).Holds k) : (b.onStack f).BehindHead k :=
  ⟨h.toKeeps.onStack (hf h.toHolds), h.mode⟩

theorem ite {c : Prop} [Decidable c] (h : b.BehindHead k) (h' : b'.BehindHead k) :
    (if c then b else b').BehindHead k := by
  split
  · exact h
  · exact h'

theorem withMode (h : b.BehindHead k) {mode : Mode} (hmode : mode.isBehindHead = true) :
    ({ b with mode := mode } : Builder).BehindHead k :=
  ⟨h.toKeeps, hmode⟩

theorem insert (h : b.BehindHead k) (tag : Tag) : (b.insert tag).BehindHead k :=
  h.onOpen fun ho => ho.push tag (home_ne_head _ _)

theorem insertNode (h : b.BehindHead k) (n : Node) : (b.insertNode n).BehindHead k :=
  h.onStack fun hs => hs.attach n (home_ne_head _ _)

theorem insertText (h : b.BehindHead k) (content : List Char) :
    (b.insertText content).BehindHead k :=
  .ite h (h.insertNode _)

theorem restart (h : b.BehindHead k) : b.restart.BehindHead k :=
  h.onOpen fun ho => ho.restart (home_ne_head _)

theorem closeWithin (h : b.BehindHead k) (stops target : Frame → Bool) :
    (b.closeWithin stops target).BehindHead k :=
  .ite (h.onStack fun hs => hs.popMany _) h

theorem closeParagraph (h : b.BehindHead k) : b.closeParagraph.BehindHead k :=
  h.closeWithin _ _

theorem insertTextElement (h : b.BehindHead k) (tag : Tag) (reading : Reading) :
    (b.insertTextElement tag reading).Lasts k :=
  ⟨(h.insert tag).toKeeps, .inr ⟨rfl, h.mode⟩⟩

theorem headElement? (h : b.BehindHead k) (hb : b.headElement? tag = some b') : b'.Lasts k := by
  unfold Builder.headElement? at hb
  split at hb
  · obtain rfl := Option.some.inj hb
    exact (h.insertNode _).lasts
  · split at hb
    · obtain rfl := Option.some.inj hb
      exact h.insertTextElement tag _
    · split at hb
      · obtain rfl := Option.some.inj hb
        exact h.insertTextElement tag _
      · cases hb

theorem addAttributes (h : b.BehindHead k) (level : Nat) (attributes : List Attribute) :
    (b.addAttributes level attributes).BehindHead k := by
  refine h.onStack fun hs => hs.modify _ (fun _ => rfl) fun f hf => ?_
  rw [Frame.has_node_iff] at hf ⊢
  exact hf.imp_left (k.more _)

/-! ### In the body -/

theorem closeItem (h : b.BehindHead k) (names : List String) :
    (b.onStack (closeItem names)).BehindHead k := by
  refine h.onStack fun hs => ?_
  unfold Builder.closeItem
  split
  · exact hs
  · split
    · exact hs.popMany _
    · exact hs

theorem insertFormat (h : b.BehindHead k) (tag : Tag) : (b.insertFormat tag).BehindHead k :=
  h.onOpen fun ho => ho.pushFormat tag (home_ne_head _ _)

theorem adopt (h : b.BehindHead k) (name : String) : (b.adopt name).BehindHead k :=
  h.onOpen fun ho => ho.adopt (home_ne_head _) name

theorem forgetOpen (h : b.BehindHead k) (name : String) :
    (b.onOpen (forgetOpen name)).BehindHead k := by
  refine h.onOpen fun ho => ?_
  unfold Builder.forgetOpen
  split
  · exact ho.format _
  · exact ho

theorem popIf (h : b.BehindHead k) (p : Frame → Bool) :
    (match b.stack with
      | f :: _ => if p f then b.onStack Stack.pop else b
      | [] => b).BehindHead k := by
  split
  · exact .ite (h.onStack fun hs => hs.pop) h
  · exact h

theorem openInBody (h : b.BehindHead k) (name : String) (attributes : List Attribute)
    (selfClosing : Bool) : (b.openInBody name attributes selfClosing).Lasts k := by
  unfold Builder.openInBody
  dsimp only
  split
  · next hhead => exact h.headElement? hhead
  · cases openingRule name with
    | root => exact (h.addAttributes 0 attributes).lasts
    | body => exact (h.addAttributes 1 attributes).lasts
    | ignored => exact h.lasts
    | block => exact (h.closeParagraph.insert _).lasts
    | heading => exact ((h.closeParagraph.popIf Frame.isHeading).insert _).lasts
    | preformatted =>
      have hpre := h.closeParagraph.insert ⟨name, attributes, .page⟩
      exact BehindHead.lasts ⟨hpre.toKeeps, hpre.mode⟩
    | form => exact (ite h (h.closeParagraph.insert _)).lasts
    | item names => exact ((h.closeItem names).closeParagraph.insert _).lasts
    | plain =>
      have hplain := h.closeParagraph.insert ⟨name, attributes, .page⟩
      exact BehindHead.lasts ⟨hplain.toKeeps, hplain.mode⟩
    | button => exact ((h.closeWithin Frame.bounds (·.isPage "button")).restart.insert _).lasts
    | anchor => exact ((ite ((h.adopt "a").forgetOpen "a") h).restart.insertFormat _).lasts
    | format => exact (h.restart.insertFormat _).lasts
    | noBreak =>
      exact ((ite (h.restart.adopt "nobr").restart h.restart).insertFormat _).lasts
    | bounded => exact ((h.restart.insert _).onOpen fun ho => ho.format _).lasts
    | table => exact (((ite h h.closeParagraph).insert _).withMode rfl).lasts
    | empty => exact (h.restart.insertNode _).lasts
    | emptyInfo => exact (h.insertNode _).lasts
    | line => exact (h.closeParagraph.insertNode _).lasts
    | image => exact (h.restart.insertNode _).lasts
    | textArea =>
      have harea := h.insertTextElement ⟨name, attributes, .page⟩ (.references name.toList)
      exact ⟨harea.toKeeps, harea.mode⟩
    | verbatim => exact h.closeParagraph.restart.insertTextElement _ _
    | frame => exact h.insertTextElement _ _
    | choice => exact ((h.popIf (·.isPage "option")).restart.insert _).lasts
    | foreign space =>
      dsimp only
      split
      · exact (h.restart.insertNode _).lasts
      · exact (h.restart.insert _).lasts
    | ordinary => exact (h.restart.insert _).lasts

theorem closeInBody (h : b.BehindHead k) (name : String) : (b.closeInBody name).BehindHead k := by
  unfold Builder.closeInBody
  -- the body or the root
  refine .ite (.ite (h.withMode (by split <;> rfl)) h) ?_
  refine .ite (h.closeWithin _ _) ?_
  -- a paragraph
  refine .ite (closeParagraph (.ite h (h.insert _))) ?_
  refine .ite (h.closeWithin _ _) (.ite (h.closeWithin _ _) (.ite (h.closeWithin _ _) ?_))
  refine .ite (h.adopt name) ?_
  -- an element that bounds formatting
  refine .ite (.ite ((h.onStack fun hs => hs.popMany _).onOpen fun ho => ho.format _) h) ?_
  exact .ite (h.restart.insertNode _) (h.onOpen fun ho => ho.close name)

theorem inBody (h : b.BehindHead k) (t : Token) : (b.inBody t).Lasts k := by
  cases t with
  | doctype d => exact h.lasts
  | comment content => exact (h.insertNode _).lasts
  | text content => exact (ite h (h.restart.insertText _)).lasts
  | opening name attributes selfClosing => exact h.openInBody name attributes selfClosing
  | closing name => exact (h.closeInBody name).lasts

/-! ### In tables -/

theorem clearTo (h : b.BehindHead k) (names : List String) : (b.clearTo names).BehindHead k :=
  h.onStack fun hs => hs.popMany _

theorem isBehindHead_modeFor (s : Stack) : (modeFor s).isBehindHead = true := by
  induction s with
  | nil => rfl
  | cons f rest ih =>
    unfold modeFor
    split_ifs <;> first | rfl | exact ih

theorem closeTable (h : b.BehindHead k) : b.closeTable.BehindHead k :=
  .ite (withMode (h.onStack fun hs => hs.popMany _) (isBehindHead_modeFor _)) h

theorem besideTable (h : b.BehindHead k) (t : Token) : (b.besideTable t).Lasts k := by
  have hinside : ({ b with outsideTable := true } : Builder).BehindHead k := ⟨h.toKeeps, h.mode⟩
  have hbody := hinside.inBody t
  exact ⟨hbody.toKeeps, hbody.mode⟩

theorem openCell (h : b.BehindHead k) (tag : Tag) : (b.openCell tag).BehindHead k :=
  (((h.clearTo ["tr"]).insert tag).onOpen fun ho => ho.format _).withMode rfl

theorem openRow (h : b.BehindHead k) (tag : Tag) : (b.openRow tag).BehindHead k := by
  have hclear := h.clearTo ["tbody", "tfoot", "thead"]
  exact .ite ((hclear.insert tag).withMode rfl) (((hclear.insert _).withMode rfl).openCell tag)

theorem openPart (h : b.BehindHead k) (tag : Tag) : (b.openPart tag).BehindHead k := by
  have hclear := h.clearTo ["table"]
  unfold Builder.openPart
  dsimp only
  split_ifs
  · exact ((hclear.onOpen fun ho => ho.format _).insert tag).withMode rfl
  · exact (hclear.insert tag).withMode rfl
  · exact ((hclear.insert _).withMode rfl).insertNode _
  · exact (hclear.insert tag).withMode rfl
  · exact ((hclear.insert _).withMode rfl).openRow tag

theorem inTable (h : b.BehindHead k) (t : Token) : (b.inTable t).Lasts k := by
  cases t with
  | doctype d => exact h.lasts
  | comment content => exact (h.insertNode _).lasts
  | text content =>
    simp only [Builder.inTable]
    split_ifs
    · exact (h.insertText _).lasts
    · exact h.besideTable _
  | opening name attributes selfClosing =>
    simp only [Builder.inTable]
    split_ifs
    · exact (h.openPart _).lasts
    · exact h.closeTable.openInBody name attributes selfClosing
    · exact h.lasts
    · cases hhead : b.headElement? ⟨name, attributes, .page⟩ with
      | none => exact h.lasts
      | some b' => exact h.headElement? hhead
    · exact (h.insertNode _).lasts
    · exact h.besideTable _
  | closing name =>
    simp only [Builder.inTable]
    split_ifs
    · exact h.closeTable.lasts
    · exact h.lasts
    · exact h.besideTable _

theorem closePart (h : b.BehindHead k) (names : List String) {mode : Mode}
    (hmode : mode.isBehindHead = true) : (b.closePart names mode).BehindHead k :=
  withMode ((h.clearTo names).onStack fun hs => hs.pop) hmode

theorem inTableBody (h : b.BehindHead k) (t : Token) : (b.inTableBody t).Lasts k := by
  have hclosed := fun names => h.closePart names (rfl : Mode.inTable.isBehindHead = true)
  unfold Builder.inTableBody
  dsimp only
  split
  · split_ifs
    · exact (h.openRow _).lasts
    · exact (hclosed _).inTable _
    · exact h.lasts
    · exact h.inTable _
  · split_ifs
    · exact (hclosed _).lasts
    · exact h.lasts
    · exact (hclosed _).inTable _
    · exact h.lasts
    · exact h.lasts
    · exact h.inTable _
  · exact h.inTable _

theorem inRow (h : b.BehindHead k) (t : Token) : (b.inRow t).Lasts k := by
  have hclosed := h.closePart ["tr"] (rfl : Mode.inTableBody.isBehindHead = true)
  unfold Builder.inRow
  split
  · split_ifs
    · exact (h.openCell _).lasts
    · exact hclosed.inTableBody _
    · exact h.lasts
    · exact h.inTable _
  · split_ifs
    · exact hclosed.lasts
    · exact h.lasts
    · exact hclosed.inTableBody _
    · exact h.lasts
    · exact h.lasts
    · exact h.inTable _
  · exact h.inTable _

/-- The innermost element of a kind is closed, with the formatting in it. -/
theorem closeMarked (h : b.BehindHead k) (p : Frame → Bool) {mode : Mode}
    (hmode : mode.isBehindHead = true) :
    ({ (b.onStack (·.popThrough p)).onOpen Open.unmark with mode := mode } : Builder).BehindHead
      k :=
  ((h.onStack fun hs => hs.popMany _).onOpen fun ho => ho.format _).withMode hmode

theorem inCell (h : b.BehindHead k) (t : Token) : (b.inCell t).Lasts k := by
  have hclosed : b.closeCell.BehindHead k := h.closeMarked _ rfl
  unfold Builder.inCell
  dsimp only
  split
  · split_ifs
    · exact hclosed.inRow _
    · exact h.lasts
    · exact h.inBody _
  · split_ifs
    · exact (h.closeMarked _ rfl).lasts
    · exact h.lasts
    · exact h.lasts
    · exact hclosed.inRow _
    · exact h.lasts
    · exact h.inBody _
  · exact h.inBody _

theorem inCaption (h : b.BehindHead k) (t : Token) : (b.inCaption t).Lasts k := by
  have hclosed := h.closeMarked (·.isPage "caption") (rfl : Mode.inTable.isBehindHead = true)
  unfold Builder.inCaption
  dsimp only
  split
  · split_ifs
    · exact hclosed.inTable _
    · exact h.lasts
    · exact h.inBody _
  · split_ifs
    · exact hclosed.lasts
    · exact h.lasts
    · exact hclosed.inTable _
    · exact h.lasts
    · exact h.lasts
    · exact h.inBody _
  · exact h.inBody _

theorem closeColumns (h : b.BehindHead k) (hb : b.closeColumns = some b') : b'.BehindHead k := by
  unfold Builder.closeColumns at hb
  split at hb
  · split at hb
    · obtain rfl := Option.some.inj hb
      exact withMode (h.onStack fun hs => hs.pop) rfl
    · cases hb
  · cases hb

/-- A token that ends the columns of a table counts in the table. -/
theorem afterColumns (h : b.BehindHead k) (t : Token) :
    (match b.closeColumns with
      | some b => b.inTable t
      | none => b).Lasts k := by
  split
  · next hb => exact (h.closeColumns hb).inTable t
  · exact h.lasts

theorem inColumns (h : b.BehindHead k) (t : Token) : (b.inColumns t).Lasts k := by
  cases t with
  | doctype d => exact h.lasts
  | comment content => exact (h.insertNode _).lasts
  | text content =>
    have hblanks := h.insertText (content.takeWhile Text.isMarkupBlank)
    simp only [Builder.inColumns]
    split
    · exact hblanks.lasts
    · exact hblanks.afterColumns _
  | opening name attributes selfClosing =>
    simp only [Builder.inColumns]
    split
    · exact (h.insertNode _).lasts
    · exact h.afterColumns _
  | closing name =>
    simp only [Builder.inColumns]
    split_ifs
    · cases hclosed : b.closeColumns with
      | none => exact h.lasts
      | some b' => exact (h.closeColumns hclosed).lasts
    · exact h.lasts
    · exact h.afterColumns _

/-! ### Behind the body -/

theorem afterBody (h : b.BehindHead k) (t : Token) : (b.afterBody t).Lasts k := by
  have hagain := (h.withMode (rfl : Mode.inBody.isBehindHead = true)).inBody t
  cases t with
  | doctype d => exact h.lasts
  | comment content => exact ⟨h.toKeeps, .inl h.mode⟩
  | text content =>
    simp only [Builder.afterBody]
    split
    · exact h.inBody _
    · exact hagain
  | opening name attributes selfClosing =>
    simp only [Builder.afterBody]
    split
    · exact h.inBody _
    · exact hagain
  | closing name =>
    simp only [Builder.afterBody]
    split
    · exact (h.withMode rfl).lasts
    · exact hagain

theorem afterRoot (h : b.BehindHead k) (t : Token) : (b.afterRoot t).Lasts k := by
  have hagain := (h.withMode (rfl : Mode.inBody.isBehindHead = true)).inBody t
  cases t with
  | doctype d => exact h.lasts
  | comment content => exact ⟨h.toKeeps, .inl h.mode⟩
  | text content =>
    simp only [Builder.afterRoot]
    split
    · exact h.inBody _
    · exact hagain
  | opening name attributes selfClosing =>
    simp only [Builder.afterRoot]
    split
    · exact h.inBody _
    · exact hagain
  | closing name => exact hagain

theorem byMode (h : b.BehindHead k) (t : Token) : (b.byMode t).Lasts k := by
  have hmode := h.mode
  unfold Builder.byMode
  split
  case h_6 => exact h.inBody t
  case h_8 => exact h.inTable t
  case h_9 => exact h.inCaption t
  case h_10 => exact h.inColumns t
  case h_11 => exact h.inTableBody t
  case h_12 => exact h.inRow t
  case h_13 => exact h.inCell t
  case h_14 => exact h.afterBody t
  case h_15 => exact h.afterRoot t
  all_goals
    next hearly =>
    rw [hearly] at hmode
    cases hmode

end BehindHead

/-! ### From one token to the last -/

namespace Lasts

/-- Where text ends, the head is behind. -/
theorem endTextElement (h : b.Lasts k) (hmode : b.mode = .inText) :
    ({ b.onStack Stack.pop with mode := b.resume, textReading := none } : Builder).BehindHead k :=
  ⟨(h.onStack h.pop).toKeeps, (h.mode.resolve_left fun hout => by
    rw [hmode] at hout
    cases hout).2⟩

theorem insertText (h : b.Lasts k) (content : List Char) : (b.insertText content).Lasts k := by
  unfold Builder.insertText
  split
  · exact h
  · exact h.onStack (h.attach _ (home_ne_head _ _))

theorem byMode (h : b.Lasts k) (t : Token) : (b.byMode t).Lasts k := by
  rcases h.mode with hmode | ⟨hmode, -⟩
  · exact BehindHead.byMode ⟨h.toKeeps, hmode⟩ t
  · have hin : b.byMode t = b.inText t := by rw [Builder.byMode, hmode]
    rw [hin]
    cases t with
    | text content => exact h.insertText content
    | closing name => exact (h.endTextElement hmode).lasts
    | doctype d => exact h
    | comment content => exact h
    | opening name attributes selfClosing => exact h

theorem inForeign (h : b.Lasts k) (t : Token) : (b.inForeign t).Lasts k := by
  cases t with
  | doctype d => exact h
  | comment content => exact h.onStack (h.attach _ (home_ne_head _ _))
  | text content => exact h.insertText _
  | opening name attributes selfClosing =>
    simp only [Builder.inForeign]
    split_ifs
    · exact (h.onStack (h.popMany _)).byMode _
    · exact h.onStack (h.attach _ (home_ne_head _ _))
    · exact ⟨h.toKeeps.push _ (home_ne_head _ _), h.mode⟩
  | closing name =>
    simp only [Builder.inForeign]
    split
    · exact h
    · split_ifs
      · exact h.onStack (h.popMany _)
      · exact h.byMode _

/-- **A token takes the trait from no page.** -/
theorem step (h : b.Lasts k) (t : Token) : (b.step t).Lasts k := by
  have hkept : ({ b with dropsNewline := false } : Builder).Lasts k := ⟨h.toKeeps, h.mode⟩
  unfold Builder.step
  dsimp only
  split
  · exact hkept
  · split
    · exact hkept.inForeign _
    · exact hkept.byMode _

/-- **Nor does what is read,** token by token. -/
theorem run (h : b.Lasts k) (page : List Char) : (b.run page).Lasts k := by
  fun_induction Builder.run b page with
  | case1 b => exact h
  | case2 b c rest tail _ ih => exact ih h
  | case3 b c rest t tail _ ih => exact ih (h.step t)

theorem endText (h : b.Lasts k) : b.endText.BehindHead k := by
  unfold Builder.endText
  split
  · next hmode => exact h.endTextElement hmode
  · next hmode => exact ⟨h.toKeeps, h.mode.resolve_right fun hin => hmode hin.1⟩

end Lasts

/-- Behind the head nothing is missing at the end of a page. -/
theorem BehindHead.complete_eq (h : b.BehindHead k) : b.complete = b := by
  have hmode := h.mode
  unfold Builder.complete
  split
  case h_6 => rfl
  all_goals
    next hearly =>
    rw [hearly] at hmode
    cases hmode

/-- At the end of a page the trait is in its tree. -/
theorem Lasts.finish (h : b.Lasts k) (hfits : b.Fits) : b.finish.root.Has k := by
  have hend := h.endText
  have hroot := hfits.endText.complete.root
  rw [hend.complete_eq] at hroot
  unfold Builder.finish
  rw [hend.complete_eq]
  dsimp only
  generalize b.endText = b' at hend hroot
  obtain ⟨inner, root, hstack, -, hzero⟩ := hroot
  -- all but the outermost element has been closed
  have hclosed := hend.popMany (b'.stack.length - 1)
  have houtline : Stack.outline (b'.stack.popMany (b'.stack.length - 1)) = [root.outline] := by
    rw [Stack.outline_popMany, hstack]
    simp [Stack.outline]
  split
  · next hnil => rw [hnil] at houtline; cases houtline
  · next f rest hcons =>
    rw [hcons] at hclosed houtline
    obtain rfl : rest = [] := List.map_eq_nil_iff.1 (List.cons.inj houtline).2
    obtain ⟨g, hg, hhas⟩ := hclosed.has ⟨_, houtline ▸ List.mem_cons_self, hzero⟩
    rw [List.mem_singleton.1 hg, Frame.has_node_iff] at hhas
    refine Node.has_element_iff.2 (hhas.imp_right (Exists.imp fun n => And.imp_left fun hn => ?_))
    exact List.mem_append_left _ (List.mem_reverse.2 hn)

end Builder
end Html
end DocHighlighter
