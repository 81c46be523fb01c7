/-
# What the rules of the body leave open

The rules of the body open and close elements, open formatting again and take blocks out of it.
They never close the root or a cell of a table: the search for what an end tag ends stops there,
and neither is ever formatting that goes on.  So of a stack of open elements they leave what is on
the innermost of these and around it, its *ground*, as it is (`Stack.ground`), up to the children.

| step | leaves the ground because |
|---|---|
| closing up to an element that is open within bounds | a cell and the root are bounds |
| an end tag without rules of its own | a cell and the root are special |
| ending formatting out of order | what formatting goes on is no cell and no root (`Open.Apart`) |

The last one rests on the numbers of elements: formatting that goes on has the number of an element
that was opened for it, and each number is given once.
-/

import DocHighlighter.Proofs.Html.MadeOf
import Mathlib.Data.List.TakeWhile

namespace DocHighlighter
namespace Html

/-- Names of the root and of the cells of tables. -/
def groundNames : List String :=
  ["html", "td", "th"]

theorem eq_of_mem_groundNames {name : String} (h : name ∈ groundNames) :
    name = "html" ∨ name = "td" ∨ name = "th" := by
  simpa [groundNames] using h

namespace Tag

variable {t : Tag}

/-- The root and the cells of tables. -/
def isGround (t : Tag) : Bool :=
  t.isOneOf groundNames

theorem isOneOf_mono {names names' : List String} (hnames : names ⊆ names')
    (h : t.isOneOf names = true) : t.isOneOf names' = true := by
  simp only [isOneOf, Bool.and_eq_true, List.contains_iff_mem] at h ⊢
  exact ⟨h.1, hnames h.2⟩

theorem isOneOf_singleton (t : Tag) (name : String) : t.isOneOf [name] = t.isPage name := by
  rw [Bool.eq_iff_iff]
  simp [isOneOf, isPage]

/-- The root is ground. -/
theorem isGround_of_isPage (h : t.isPage "html" = true) : t.isGround = true :=
  isOneOf_mono (by decide) ((isOneOf_singleton t "html").trans h)

/-- Elements of other names are not. -/
theorem isGround_eq_false {names : List String} (hnames : ∀ n ∈ names, n ∉ groundNames)
    (h : t.isOneOf names = true) : t.isGround = false := by
  simp only [isOneOf, Bool.and_eq_true, List.contains_iff_mem] at h
  simp [isGround, isOneOf, hnames _ h.2]

theorem isGround_of_isPage_other {name : String} (hname : name ∉ groundNames)
    (h : t.isPage name = true) : t.isGround = false :=
  isGround_eq_false (List.forall_mem_singleton.2 hname) ((isOneOf_singleton t name).trans h)

theorem isGround_of_name {name : String} (hname : name ∉ groundNames) (attributes : List Attribute)
    (space : Space) : isGround ⟨name, attributes, space⟩ = false := by
  simp [isGround, isOneOf, hname]

/-- Elements of drawings and formulas are not. -/
theorem isGround_of_space (h : t.space ≠ .page) : t.isGround = false := by
  simp [isGround, isOneOf, h]

end Tag

/-- Whether an open element is the root or a cell. -/
def Frame.isGround (f : Frame) : Bool :=
  f.tag.isGround

/-- The searches of end tags stop at cells and the root. -/
theorem Frame.bounds_of_isGround (f : Frame) (h : f.isGround = true) : f.bounds = true := by
  rw [bounds, isOneOf, Tag.isOneOf_mono (by decide) h, Bool.or_true]

theorem Frame.isSpecial_of_isGround (f : Frame) (h : f.isGround = true) : f.isSpecial = true := by
  rw [isSpecial, isOneOf, Tag.isOneOf_mono (by decide) h, Bool.or_true]

/-- The number of an open element, and its tag without the attributes. -/
def Frame.shape (f : Frame) : Nat × Tag :=
  (f.id, { f.tag with attributes := [] })

namespace Stack

/-- The open elements without attributes and children. -/
def shape (s : Stack) : List (Nat × Tag) :=
  s.map Frame.shape

/-- The innermost cell, or else the root, and what is open around it. -/
def ground (s : Stack) : List (Nat × Tag) :=
  s.shape.dropWhile (!·.2.isGround)

/-- The numbers of the root and the cells. -/
def groundIds (s : Stack) : List Nat :=
  (s.filter Frame.isGround).map Frame.id

/-- The outermost open element is the root of a page, the first element that was opened. -/
def HasRoot (s : Stack) : Prop :=
  ∃ inner root, s = inner ++ [root] ∧ root.isPage "html" = true ∧ root.id = 0

/-- A cell of a table is open. -/
def HasCell (s : Stack) : Prop :=
  ∃ f ∈ s, f.isOneOf ["td", "th"] = true

variable {s s' : Stack}

/-! ## Shapes -/

theorem shape_attachWithin (n : Node) (s : Stack) : (s.attachWithin n).shape = s.shape := by
  cases s <;> rfl

theorem shape_attachBeforeTable (n : Node) (s : Stack) :
    (s.attachBeforeTable n).shape = s.shape := by
  fun_induction attachBeforeTable n s with
  | case1 => rfl
  | case2 f => rfl
  | case3 f g rest h => exact congrArg (f.shape :: ·) (shape_attachWithin n (g :: rest))
  | case4 f g rest h ih => exact congrArg (f.shape :: ·) ih

theorem shape_attachHead (n : Node) (s : Stack) : (s.attachHead n).shape = s.shape := by
  fun_induction attachHead n s with
  | case1 => rfl
  | case2 f => rfl
  | case3 f g rest ih => exact congrArg (f.shape :: ·) ih

@[simp]
theorem shape_attach (n : Node) (home : Home) (s : Stack) : (s.attach n home).shape = s.shape := by
  cases home with
  | within => exact shape_attachWithin n s
  | beforeTable => exact shape_attachBeforeTable n s
  | head => exact shape_attachHead n s

theorem shape_pop (s : Stack) : s.pop.shape = s.shape.tail := by
  cases s with
  | nil => rfl
  | cons f rest => exact shape_attach f.node f.home rest

theorem shape_popMany (n : Nat) (s : Stack) : (popMany n s).shape = s.shape.drop n := by
  induction n generalizing s with
  | zero => rfl
  | succ n ih => rw [popMany, ih, shape_pop, List.drop_tail]

theorem eq_nil_of_shape (h : s.shape = s'.shape) (hs : s = []) : s' = [] := by
  subst hs
  exact List.map_eq_nil_iff.1 h.symm

theorem pop_popMany (n : Nat) (s : Stack) : (popMany n s).pop = popMany (n + 1) s := by
  induction n generalizing s with
  | zero => rfl
  | succ n ih => exact ih s.pop

/-! ## The ground -/

theorem ground_of_shape (h : s.shape = s'.shape) : s.ground = s'.ground := by
  rw [ground, ground, h]

/-- What is further in than the innermost cell does not count. -/
theorem ground_append {inner : Stack} (h : ∀ f ∈ inner, f.isGround = false) (s : Stack) :
    ground (inner ++ s) = s.ground := by
  rw [ground, shape, List.map_append]
  refine List.dropWhile_append_of_pos fun a ha => ?_
  obtain ⟨f, hf, rfl⟩ := List.mem_map.1 ha
  exact congrArg (!·) (h f hf)

theorem ground_popMany {n : Nat} (h : ∀ f ∈ s.take n, f.isGround = false) :
    (popMany n s).ground = s.ground := by
  have hdrop : (popMany n s).ground = ground (s.drop n) :=
    ground_of_shape ((shape_popMany n s).trans (List.map_drop ..).symm)
  rw [hdrop, ← ground_append h, List.take_append_drop]

/-- Root and cells among the open elements are those in the ground. -/
theorem mem_ground {a : Nat × Tag} (ha : a.2.isGround = true) : a ∈ s.ground ↔ a ∈ s.shape := by
  have hsplit := List.takeWhile_append_dropWhile (p := (!·.2.isGround)) (l := s.shape)
  constructor
  · exact fun h => (List.dropWhile_suffix _).subset h
  · intro h
    rw [← hsplit] at h
    refine (List.mem_append.1 h).resolve_left fun h => ?_
    have hnot := List.mem_takeWhile_imp h
    rw [ha] at hnot
    cases hnot

theorem mem_groundIds {i : Nat} :
    i ∈ s.groundIds ↔ ∃ a ∈ s.ground, a.2.isGround = true ∧ a.1 = i := by
  simp only [groundIds, List.mem_map, List.mem_filter]
  constructor
  · rintro ⟨f, ⟨hf, hground⟩, rfl⟩
    have ha : f.shape.2.isGround = true := hground
    exact ⟨f.shape, (mem_ground ha).2 (List.mem_map_of_mem hf), ha, rfl⟩
  · rintro ⟨a, ha, hground, rfl⟩
    obtain ⟨f, hf, rfl⟩ := List.mem_map.1 ((mem_ground hground).1 ha)
    exact ⟨f, ⟨hf, hground⟩, rfl⟩

theorem mem_groundIds_of_ground (h : s.ground = s'.ground) {i : Nat} :
    i ∈ s.groundIds ↔ i ∈ s'.groundIds := by
  rw [mem_groundIds, mem_groundIds, h]

theorem hasCell_iff : s.HasCell ↔ ∃ a ∈ s.ground, a.2.isOneOf ["td", "th"] = true := by
  have hcell : ∀ t : Tag, t.isOneOf ["td", "th"] = true → t.isGround = true :=
    fun _ => Tag.isOneOf_mono (by decide)
  constructor
  · rintro ⟨f, hf, h⟩
    have ha : f.shape.2.isOneOf ["td", "th"] = true := h
    exact ⟨f.shape, (mem_ground (hcell _ ha)).2 (List.mem_map_of_mem hf), ha⟩
  · rintro ⟨a, ha, h⟩
    obtain ⟨f, hf, rfl⟩ := List.mem_map.1 ((mem_ground (hcell _ h)).1 ha)
    exact ⟨f, hf, h⟩

theorem hasRoot_iff :
    s.HasRoot ↔
      ∃ inner root, s.ground = inner ++ [root] ∧ root.2.isPage "html" = true ∧ root.1 = 0 := by
  constructor
  · rintro ⟨inner, root, rfl, hroot⟩
    have hroot' : root.shape.2.isPage "html" = true ∧ root.shape.1 = 0 := hroot
    rw [ground, shape, List.map_append, List.dropWhile_append]
    split
    · refine ⟨[], root.shape, ?_, hroot'⟩
      simp [Tag.isGround_of_isPage hroot'.1]
    · exact ⟨_, root.shape, rfl, hroot'⟩
  · rintro ⟨inner, root, hground, hroot⟩
    have hshape := List.takeWhile_append_dropWhile (p := (!·.2.isGround)) (l := s.shape)
    rw [show s.shape.dropWhile _ = _ from hground, ← List.append_assoc] at hshape
    obtain ⟨outer, last, rfl, -, hlast⟩ := List.map_eq_append_iff.1 hshape.symm
    obtain ⟨f, rfl, rfl⟩ := List.map_eq_singleton_iff.1 hlast
    exact ⟨outer, f, rfl, hroot⟩

theorem HasRoot.of_ground (h : s.ground = s'.ground) (hroot : s.HasRoot) : s'.HasRoot := by
  rw [hasRoot_iff] at hroot ⊢
  rwa [← h]

theorem HasCell.of_ground (h : s.ground = s'.ground) (hcell : s.HasCell) : s'.HasCell := by
  rw [hasCell_iff] at hcell ⊢
  rwa [← h]

/-! ## Closing within the ground -/

/-- **A search that stops at cells and the root** finds what is further in, so closing up to it
leaves the ground: by induction on the stack, up to where the search ends. -/
theorem ground_popThrough {stops target : Frame → Bool}
    (hstops : ∀ f : Frame, f.isGround = true → stops f = true)
    (htarget : ∀ f : Frame, target f = true → f.isGround = false)
    (h : isOpenWithin stops target s = true) : (s.popThrough target).ground = s.ground := by
  refine ground_popMany ?_
  induction s with
  | nil => cases h
  | cons f rest ih =>
    cases hf : target f with
    | true =>
      rw [List.takeWhile_cons_of_neg (by simp [hf])]
      simpa using htarget f hf
    | false =>
      rw [isOpenWithin, hf, Bool.false_or, Bool.and_eq_true, Bool.not_eq_true'] at h
      rw [List.takeWhile_cons_of_pos (by simp [hf]), List.length_cons, List.take_succ_cons]
      refine List.forall_mem_cons.2 ⟨?_, ih h.2⟩
      exact Bool.eq_false_iff.2 fun hground => by rw [hstops f hground] at h; cases h.1

/-- The same for a search for the first element of a kind that cells and the root are of. -/
theorem ground_popThrough_find? {q : Frame → Bool} {f : Frame}
    (hq : ∀ g : Frame, g.isGround = true → q g = true) (hf : f.isGround = false)
    (h : s.find? q = some f) : (s.popThrough (·.id == f.id)).ground = s.ground := by
  refine ground_popMany ?_
  induction s with
  | nil => cases h
  | cons g rest ih =>
    have hg : g.isGround = false := by
      cases hground : g.isGround with
      | false => rfl
      | true =>
        rw [List.find?_cons_of_pos (hq g hground)] at h
        rw [Option.some.inj h, hf] at hground
        cases hground
    by_cases hid : (g.id == f.id) = true
    · rw [List.takeWhile_cons_of_neg (by simp [hid])]
      simpa using hg
    · have hnot : q g = false := by
        refine Bool.eq_false_iff.2 fun hqg => hid ?_
        rw [List.find?_cons_of_pos hqg] at h
        rw [Option.some.inj h, beq_self_eq_true]
      rw [List.find?_cons_of_neg (by simp [hnot])] at h
      rw [List.takeWhile_cons_of_pos (by simpa using hid), List.length_cons, List.take_succ_cons]
      exact List.forall_mem_cons.2 ⟨hg, ih h⟩

theorem ground_popWhile {p : Frame → Bool} (hp : ∀ f : Frame, p f = true → f.isGround = false) :
    (s.popWhile p).ground = s.ground := by
  refine ground_popMany fun f hf => hp f ?_
  rw [← List.prefix_iff_eq_take.1 (List.takeWhile_prefix p)] at hf
  exact List.mem_takeWhile_imp hf

/-! ## Closing more than the ground -/

theorem exists_of_isOpenWithin {stops target : Frame → Bool}
    (h : isOpenWithin stops target s = true) : ∃ f ∈ s, target f = true := by
  induction s with
  | nil => cases h
  | cons f rest ih =>
    rw [isOpenWithin, Bool.or_eq_true, Bool.and_eq_true] at h
    rcases h with h | ⟨-, h⟩
    · exact ⟨f, List.mem_cons_self, h⟩
    · obtain ⟨g, hg, htarget⟩ := ih h
      exact ⟨g, List.mem_cons_of_mem _ hg, htarget⟩

theorem mem_groundIds_of_popMany {n i : Nat} (h : i ∈ (popMany n s).groundIds) :
    i ∈ s.groundIds := by
  obtain ⟨a, ha, hground, rfl⟩ := mem_groundIds.1 h
  rw [mem_ground hground, shape_popMany] at ha
  exact mem_groundIds.2 ⟨a, (mem_ground hground).2 (List.mem_of_mem_drop ha), hground, rfl⟩

theorem length_takeWhile_lt {p : Frame → Bool} {f : Frame} (hf : f ∈ s) (h : p f = false) :
    (s.takeWhile p).length < s.length := by
  refine lt_of_le_of_ne (List.takeWhile_prefix p).length_le fun hlength => ?_
  rw [← (List.takeWhile_prefix p).eq_of_length hlength] at hf
  rw [List.mem_takeWhile_imp hf] at h
  cases h

namespace HasRoot

theorem ne_nil (h : s.HasRoot) : s ≠ [] := by
  obtain ⟨inner, root, rfl, -⟩ := h
  exact List.append_ne_nil_of_right_ne_nil _ (List.cons_ne_nil _ _)

theorem cons (h : s.HasRoot) (f : Frame) : HasRoot (f :: s) := by
  obtain ⟨inner, root, rfl, hroot⟩ := h
  exact ⟨f :: inner, root, rfl, hroot⟩

/-- The root stays open if fewer elements are closed than are open. -/
theorem popMany {n : Nat} (h : s.HasRoot) (hn : n < s.length) : (popMany n s).HasRoot := by
  obtain ⟨inner, root, rfl, hroot⟩ := h
  have hle : n ≤ inner.length := by simpa [Nat.lt_succ_iff] using hn
  have hshape : (Stack.popMany n (inner ++ [root])).shape = shape (inner.drop n ++ [root]) := by
    rw [shape_popMany, ← List.drop_append_of_le_length hle, shape, shape, List.map_drop]
  exact HasRoot.of_ground (ground_of_shape hshape.symm) ⟨inner.drop n, root, rfl, hroot⟩

theorem popWhile {p : Frame → Bool} (h : s.HasRoot)
    (hp : ∀ f : Frame, f.isPage "html" = true → p f = false) : (s.popWhile p).HasRoot := by
  obtain ⟨inner, root, hs, hroot⟩ := id h
  refine h.popMany (length_takeWhile_lt (f := root) ?_ (hp root hroot.1))
  rw [hs]
  exact List.mem_append_right _ List.mem_cons_self

/-- The root stays open if an element is closed that is not the root. -/
theorem popThrough {p : Frame → Bool} {f : Frame} (h : s.HasRoot) (hf : f ∈ s)
    (hp : p f = true) (hpage : f.isPage "html" = false) : (s.popThrough p).HasRoot := by
  refine h.popMany ?_
  obtain ⟨inner, root, rfl, hroot⟩ := h
  have hinner : f ∈ inner := by
    refine (List.mem_append.1 hf).resolve_right fun hf => ?_
    rw [List.mem_singleton.1 hf, hroot.1] at hpage
    cases hpage
  have hlt := length_takeWhile_lt (p := (!p ·)) hinner (by simp [hp])
  rw [List.takeWhile_append, if_neg hlt.ne, List.length_append]
  simpa using hlt

theorem pop {f : Frame} {rest : Stack} (h : HasRoot (f :: rest)) (hf : f.isPage "html" = false) :
    (Stack.pop (f :: rest)).HasRoot :=
  h.popThrough (p := fun _ => true) List.mem_cons_self rfl hf

end HasRoot

end Stack

/-! ## Formatting that goes on -/

/-- What formatting goes on is no cell and no root, and numbers are given once. -/
structure Open.Apart (o : Open) : Prop where
  ids : ∀ i ∈ o.stack.groundIds, i < o.nextId
  formatting : ∀ id tag, .element id tag ∈ o.formatting →
    id < o.nextId ∧ tag.isGround = false ∧ id ∉ o.stack.groundIds

/-- Open elements on a ground. -/
structure Open.On (g : List (Nat × Tag)) (o : Open) : Prop extends Open.Apart o where
  ground : o.stack.ground = g

/-- The root is open. -/
structure Open.Rooted (o : Open) : Prop extends Open.Apart o where
  root : o.stack.HasRoot

namespace Open

variable {o o' : Open} {g : List (Nat × Tag)} {tag : Tag}

theorem Apart.on (h : o.Apart) : o.On o.stack.ground :=
  ⟨h, rfl⟩

theorem Apart.of_subset (h : o.Apart) {entries : List Format} (hsub : entries ⊆ o.formatting) :
    ({ o with formatting := entries } : Open).Apart :=
  ⟨h.ids, fun id tag he => h.formatting id tag (hsub he)⟩

/-- Closing elements leaves formatting apart, also if cells are closed. -/
theorem Apart.popMany (h : o.Apart) (n : Nat) :
    ({ o with stack := o.stack.popMany n } : Open).Apart := by
  refine ⟨fun i hi => h.ids i (Stack.mem_groundIds_of_popMany hi), fun id tag he => ?_⟩
  obtain ⟨hid, htag, hnot⟩ := h.formatting id tag he
  exact ⟨hid, htag, fun hi => hnot (Stack.mem_groundIds_of_popMany hi)⟩

/-- A new element has a new number, so formatting stays apart from it, also from a cell. -/
theorem Apart.push (h : o.Apart) (tag : Tag) (home : Home) : (o.push tag home).Apart := by
  have hmem : ∀ {i}, i ∈ (o.push tag home).stack.groundIds →
      i = o.nextId ∨ i ∈ o.stack.groundIds := by
    intro i hi
    obtain ⟨f, hf, rfl⟩ := List.mem_map.1 hi
    obtain ⟨hf, hground⟩ := List.mem_filter.1 hf
    rcases List.mem_cons.1 hf with rfl | hf
    · exact .inl rfl
    · exact .inr (List.mem_map_of_mem (List.mem_filter.2 ⟨hf, hground⟩))
  refine ⟨fun i hi => ?_, fun id tag' he => ?_⟩
  · rcases hmem hi with rfl | hi
    · exact Nat.lt_succ_self _
    · exact Nat.lt_succ_of_lt (h.ids i hi)
  · obtain ⟨hid, htag, hnot⟩ := h.formatting id tag' he
    exact ⟨Nat.lt_succ_of_lt hid, htag, fun hi => (hmem hi).elim hid.ne hnot⟩

/-- **What is opened, closed and formatted on a ground:** new formatting has new numbers. -/
theorem On.of (h : o.On g) {s : Stack} {entries : List Format} {next : Nat}
    (hs : s.ground = g) (hnext : o.nextId ≤ next)
    (hentries : ∀ id tag, .element id tag ∈ entries → .element id tag ∈ o.formatting ∨
      o.nextId ≤ id ∧ id < next ∧ tag.isGround = false) :
    (⟨s, entries, next⟩ : Open).On g := by
  have hmem : ∀ {i}, i ∈ s.groundIds → i ∈ o.stack.groundIds :=
    fun hi => (Stack.mem_groundIds_of_ground (hs.trans h.ground.symm)).1 hi
  refine ⟨⟨fun i hi => (h.ids i (hmem hi)).trans_le hnext, fun id tag he => ?_⟩, hs⟩
  rcases hentries id tag he with hold | ⟨hle, hlt, htag⟩
  · obtain ⟨hid, htag, hnot⟩ := h.formatting id tag hold
    exact ⟨hid.trans_le hnext, htag, fun hi => hnot (hmem hi)⟩
  · exact ⟨hlt, htag, fun hi => absurd (h.ids id (hmem hi)) hle.not_gt⟩

theorem On.onStack (h : o.On g) {s : Stack} (hs : s.ground = o.stack.ground) :
    ({ o with stack := s } : Open).On g :=
  h.of (hs.trans h.ground) le_rfl fun _ _ he => .inl he

theorem On.of_subset (h : o.On g) {entries : List Format} (hsub : entries ⊆ o.formatting) :
    ({ o with formatting := entries } : Open).On g :=
  h.of h.ground le_rfl fun _ _ he => .inl (hsub he)

theorem On.push (h : o.On g) (htag : tag.isGround = false) (home : Home) :
    (o.push tag home).On g := by
  have hnew : ∀ f ∈ [(⟨tag, o.nextId, home, []⟩ : Frame)], f.isGround = false :=
    List.forall_mem_singleton.2 htag
  exact h.of ((Stack.ground_append hnew o.stack).trans h.ground) (Nat.le_succ _)
    fun _ _ he => .inl he

theorem On.mark (h : o.On g) : o.mark.On g :=
  h.of h.ground le_rfl fun _ _ he => .inl (by simpa [Open.mark] using he)

theorem unmark_subset (o : Open) : o.unmark.formatting ⊆ o.formatting :=
  fun _ he => (List.dropWhile_suffix _).subset (List.mem_of_mem_drop he)

theorem On.unmark (h : o.On g) : o.unmark.On g :=
  h.of_subset (unmark_subset o)

theorem On.forget (h : o.On g) (id : Nat) : (o.forget id).On g :=
  h.of_subset fun _ he => List.mem_of_mem_filter he

theorem On.pushFormat (h : o.On g) (htag : tag.isGround = false) (home : Home) :
    (o.pushFormat tag home).On g := by
  refine h.of (h.push htag home).ground (Nat.le_succ _) fun id tag' he => ?_
  rcases List.mem_cons.1 he with he | he
  · obtain ⟨rfl, rfl⟩ := Format.element.inj he
    exact .inr ⟨le_rfl, Nat.lt_succ_self _, htag⟩
  refine .inl ?_
  rcases List.mem_append.1 he with he | he
  · refine (List.takeWhile_prefix (!·.isMark)).subset ?_
    split at he
    · exact mem_of_mem_dropLast he
    · exact he
  · exact (List.dropWhile_suffix _).subset he

theorem On.restartAll (home : Stack → Home) {lost : List Format} (h : o.On g)
    (hlost : ∀ id tag, .element id tag ∈ lost → tag.isGround = false) :
    (restartAll home lost o).On g := by
  induction lost generalizing o with
  | nil => exact h
  | cons e rest ih =>
    have hrest : ∀ id tag, .element id tag ∈ rest → tag.isGround = false :=
      fun id tag he => hlost id tag (List.mem_cons_of_mem _ he)
    cases e with
    | mark => exact ih h hrest
    | element id tag =>
      have htag := hlost id tag List.mem_cons_self
      refine ih (h.of (h.push htag (home o.stack)).ground (Nat.le_succ _) ?_) hrest
      intro id' tag' he
      rcases List.mem_cons.1 he with he | he
      · obtain ⟨rfl, rfl⟩ := Format.element.inj he
        exact .inr ⟨le_rfl, Nat.lt_succ_self _, htag⟩
      · exact .inl he

theorem On.restart (home : Stack → Home) (h : o.On g) : (o.restart home).On g := by
  refine On.restartAll home (h.of_subset (List.dropWhile_suffix _).subset) fun id tag he => ?_
  exact (h.formatting id tag ((List.takeWhile_prefix _).subset (List.mem_reverse.1 he))).2.1

/-- An end tag without rules of its own stops at what is special, as cells and the root are. -/
theorem On.close (h : o.On g) {name : String} (hname : name ∉ groundNames) :
    (o.close name).On g := by
  unfold Open.close
  split
  · exact h
  · next f hfind =>
    split
    · next hpage =>
      refine h.onStack (Stack.ground_popThrough_find? (fun f hf => ?_)
        (Tag.isGround_of_isPage_other hname hpage) hfind)
      rw [f.isSpecial_of_isGround hf, Bool.or_true]
    · exact h

/-- Copies of formatting are no cells. -/
theorem On.copyBetween {frames : List Frame} (hframes : ∀ f ∈ frames, f.isGround = false) {n : Nat}
    (h : o.On g) : (∀ f ∈ (copyBetween n frames o).1, f.isGround = false) ∧
      (copyBetween n frames o).2.2.On g := by
  induction frames generalizing n o with
  | nil => exact ⟨List.forall_mem_nil _, h⟩
  | cons f rest ih =>
    obtain ⟨hf, hrest⟩ := List.forall_mem_cons.1 hframes
    rw [Open.copyBetween]
    split
    · split
      · have hcopied : ({ o with
            formatting := o.formatting.map fun e =>
              if e.hasId f.id then .element o.nextId f.tag else e
            nextId := o.nextId + 1 } : Open).On g := by
          refine h.of h.ground (Nat.le_succ _) fun id tag he => ?_
          obtain ⟨e, he, heq⟩ := List.mem_map.1 he
          split at heq
          · obtain ⟨rfl, rfl⟩ := Format.element.inj heq
            exact .inr ⟨le_rfl, Nat.lt_succ_self _, hf⟩
          · exact .inl (heq ▸ he)
        obtain ⟨hcopies, hopen⟩ := ih hrest (n := n + 1) hcopied
        exact ⟨List.forall_mem_cons.2 ⟨hf, hcopies⟩, hopen⟩
      · exact ih hrest (h.forget f.id)
    · exact ih hrest h

theorem isGround_of_mem_settle {frames : List Frame} (h : ∀ f ∈ frames, f.isGround = false)
    (home : Home) : ∀ f ∈ settle home frames, f.isGround = false := by
  induction frames with
  | nil => exact h
  | cons f rest ih =>
    obtain ⟨hf, hrest⟩ := List.forall_mem_cons.1 h
    cases rest with
    | nil => exact List.forall_mem_cons.2 ⟨hf, hrest⟩
    | cons g rest => exact List.forall_mem_cons.2 ⟨hf, ih hrest⟩

/-- **A block is taken out of the formatting around it** on the same ground, if neither is a cell,
and no cell is between them. -/
theorem On.takeOut (home : Stack → Home) {inner between outer : Stack} {block format : Frame}
    (hinner : ∀ f ∈ inner, f.isGround = false) (hblock : block.isGround = false)
    (hbetween : ∀ f ∈ between, f.isGround = false) (hformat : format.isGround = false)
    (houter : outer.ground = g) (h : o.On g) :
    (takeOut home inner block between format outer o).On g := by
  obtain ⟨hcopies, hopen⟩ := On.copyBetween hbetween (n := 0) h
  have haround : (Stack.popMany (between.length + 1) (between ++ format :: outer)).ground = g := by
    have hclosed : ∀ f ∈ between ++ [format], f.isGround = false :=
      List.forall_mem_append.2 ⟨hbetween, List.forall_mem_singleton.2 hformat⟩
    have hsplit : between ++ format :: outer = (between ++ [format]) ++ outer := by simp
    rw [Stack.ground_popMany, hsplit, Stack.ground_append hclosed, houter]
    rwa [hsplit, List.take_left' (by simp)]
  unfold Open.takeOut
  refine hopen.of ?_ (Nat.le_succ _) fun id tag he => ?_
  · refine (Stack.ground_append (List.forall_mem_append.2 ⟨hinner, ?_⟩) _).trans haround
    refine List.forall_mem_cons.2 ⟨hformat, ?_⟩
    have hblock' : ({ block with children := [] } : Frame).isGround = false := hblock
    exact isGround_of_mem_settle (List.forall_mem_cons.2 ⟨hblock', hcopies⟩) _
  · have hnew : ∀ next, next ≤ next ∧ next < next + 1 ∧ format.tag.isGround = false :=
      fun next => ⟨le_rfl, Nat.lt_succ_self _, hformat⟩
    split at he
    · obtain ⟨e, he, heq⟩ := List.mem_map.1 he
      split at heq
      · obtain ⟨rfl, rfl⟩ := Format.element.inj heq
        exact .inr (hnew _)
      · exact .inl (heq ▸ he)
    · obtain ⟨e, he, hmem⟩ := List.mem_flatMap.1 he
      have hold := List.mem_of_mem_filter he
      split at hmem
      · rcases List.mem_cons.1 hmem with heq | hmem
        · obtain ⟨rfl, rfl⟩ := Format.element.inj heq
          exact .inr (hnew _)
        · exact .inl (List.mem_singleton.1 hmem ▸ hold)
      · exact .inl (List.mem_singleton.1 hmem ▸ hold)

/-- What formatting that goes on was opened for is no cell. -/
theorem Apart.isGround_of_dropWhile (h : o.Apart) {id : Nat} {format : Frame} {outer : Stack}
    (hentry : .element id tag ∈ o.formatting)
    (hdrop : o.stack.dropWhile (·.id != id) = format :: outer) : format.isGround = false := by
  refine Bool.eq_false_iff.2 fun hground => ?_
  have hid : format.id = id := by
    simpa [hdrop] using List.head_dropWhile_not (p := fun f : Frame => f.id != id)
      (by simp [hdrop] : o.stack.dropWhile _ ≠ [])
  have hmem : format ∈ o.stack :=
    (List.dropWhile_suffix (fun f : Frame => f.id != id)).subset (hdrop ▸ List.mem_cons_self)
  exact (h.formatting id tag hentry).2.2
    (List.mem_map.2 ⟨format, List.mem_filter.2 ⟨hmem, hground⟩, hid⟩)

/-- **Formatting that is ended out of order** leaves the ground: the elements inside of it have no
bounds among them, and it is no cell itself. -/
theorem On.adoptMany (home : Stack → Home) {name : String} (hname : name ∉ groundNames) (n : Nat)
    (h : o.On g) : (adoptMany home name n o).On g := by
  induction n generalizing o with
  | zero => exact h
  | succ n ih =>
    rw [Open.adoptMany]
    split
    · exact h.close hname
    · exact h
    · next id tag hfind =>
      have hentry : Format.element id tag ∈ o.formatting :=
        (List.takeWhile_prefix _).subset (List.mem_of_find?_eq_some hfind)
      split
      · exact h.forget id
      · next format outer hdrop =>
        have hsplit := List.takeWhile_append_dropWhile (p := fun f : Frame => f.id != id)
          (l := o.stack)
        rw [hdrop] at hsplit
        have hformat := h.isGround_of_dropWhile hentry hdrop
        dsimp only
        split
        · exact h
        · next hbounds =>
          have hinside : ∀ f ∈ o.stack.takeWhile (·.id != id), f.isGround = false := by
            intro f hf
            refine Bool.eq_false_iff.2 fun hground => ?_
            exact hbounds (List.any_eq_true.2 ⟨f, hf, f.bounds_of_isGround hground⟩)
          have hclosed : ∀ f ∈ o.stack.takeWhile (·.id != id) ++ [format], f.isGround = false :=
            List.forall_mem_append.2 ⟨hinside, List.forall_mem_singleton.2 hformat⟩
          have hsplit' : o.stack = (o.stack.takeWhile (·.id != id) ++ [format]) ++ outer := by
            rw [List.append_assoc]
            exact hsplit.symm
          have houter : Stack.ground outer = g := by
            rw [← h.ground, hsplit', Stack.ground_append hclosed]
          split
          · refine On.forget (h.onStack (Stack.ground_popMany ?_)) id
            have htake := List.prefix_iff_eq_take.1 ⟨outer, hsplit'.symm⟩
            rw [List.length_append, List.length_singleton] at htake
            rwa [← htake]
          · next block inner hblocks =>
            have hblock : ∀ f ∈ block :: inner, f.isGround = false := by
              rw [← hblocks]
              exact fun f hf => hinside f (List.mem_reverse.1 ((List.dropWhile_suffix _).subset hf))
            obtain ⟨hblock, hinner⟩ := List.forall_mem_cons.1 hblock
            refine ih (On.takeOut home ?_ hblock ?_ hformat houter h)
            · exact fun f hf => hinner f (List.mem_reverse.1 hf)
            · exact fun f hf => hinside f (List.mem_reverse.1
                ((List.takeWhile_prefix _).subset (List.mem_reverse.1 hf)))

theorem On.adopt (home : Stack → Home) {name : String} (hname : name ∉ groundNames) (h : o.On g) :
    (o.adopt home name).On g := by
  unfold Open.adopt
  split
  · next f rest hstack =>
    split
    · next htop =>
      rw [Bool.and_eq_true] at htop
      refine h.onStack (Stack.ground_popMany (n := 1) ?_)
      rw [hstack]
      exact List.forall_mem_singleton.2 (Tag.isGround_of_isPage_other hname htop.1)
    · exact h.adoptMany home hname 8
  · exact h

/-! ## Where the root stays open -/

theorem Rooted.of_subset (h : o.Rooted) {entries : List Format} (hsub : entries ⊆ o.formatting) :
    ({ o with formatting := entries } : Open).Rooted :=
  ⟨h.toApart.of_subset hsub, h.root⟩

theorem Rooted.mark (h : o.Rooted) : o.mark.Rooted :=
  ⟨(h.toApart.on.mark).toApart, h.root⟩

theorem Rooted.unmark (h : o.Rooted) : o.unmark.Rooted :=
  h.of_subset (unmark_subset o)

theorem Rooted.push (h : o.Rooted) (tag : Tag) (home : Home) : (o.push tag home).Rooted :=
  ⟨h.toApart.push tag home, h.root.cons _⟩

theorem Rooted.popWhile (h : o.Rooted) {p : Frame → Bool}
    (hp : ∀ f : Frame, f.isPage "html" = true → p f = false) :
    ({ o with stack := o.stack.popWhile p } : Open).Rooted :=
  ⟨h.toApart.popMany _, h.root.popWhile hp⟩

theorem Rooted.popThrough (h : o.Rooted) {p : Frame → Bool} {f : Frame} (hf : f ∈ o.stack)
    (hp : p f = true) (hpage : f.isPage "html" = false) :
    ({ o with stack := o.stack.popThrough p } : Open).Rooted :=
  ⟨h.toApart.popMany _, h.root.popThrough hf hp hpage⟩

theorem Rooted.pop (h : o.Rooted) {f : Frame} {rest : Stack} (hstack : o.stack = f :: rest)
    (hf : f.isPage "html" = false) : ({ o with stack := o.stack.pop } : Open).Rooted := by
  refine ⟨h.toApart.popMany 1, ?_⟩
  have hroot := h.root
  rw [hstack] at hroot ⊢
  exact hroot.pop hf

theorem Rooted.close (h : o.Rooted) {name : String} (hname : name ≠ "html") :
    (o.close name).Rooted := by
  unfold Open.close
  split
  · exact h
  · next f hfind =>
    split
    · next hpage =>
      refine h.popThrough (List.mem_of_find?_eq_some hfind) (beq_self_eq_true _) ?_
      simp only [Frame.isPage, Tag.isPage, Bool.and_eq_true, beq_iff_eq] at hpage
      simp [Frame.isPage, Tag.isPage, hpage, hname]
    · exact h

end Open
end Html
end DocHighlighter
