/-
# The texts of a fragment's lines

The lines of a fragment are its elements of the class, at any depth, and each has all the text below
it.  A text of the fragment feeds a line if putting another text in its place can change the line
(`Fragment.Feeds`); these are the texts at and below the line's element (`Fragment.feeds_iff`).

So a fragment is read once (`Fragment.ReadsOnce`: no text feeds two lines, the lines have their texts
in the order of the page, and no text stands twice in the code) exactly if no line has a line with
text inside of it (`Fragment.readsOnce_iff`).  Not every page has only such fragments
(`Html.Page.not_forall_readsFragmentsOnce`).

| in the fragment | the lines |
|---|---|
| `<div class="line">a</div><div class="line">b</div>` | `a`, `b` |
| `<div class="line">a<div class="line">b</div></div>` | `ab`, `b` |
-/

import DocHighlighter.Proofs.Block.Classified
import DocHighlighter.Proofs.Html.Texts
import Mathlib.Data.List.NodupEquivFin

namespace DocHighlighter

open Html

namespace Fragment

variable (isOld : Bool) (tag : Tag) (children : List Node)

/-- A text of an element feeds a line: with another text in its place the line may be another. -/
def Feeds (k i : Nat) : Prop :=
  ∃ new, (ofElement isOld tag (Node.setTextIn k new children)).lines[i]? ≠
    (ofElement isOld tag children).lines[i]?

/-- No text of an element is read twice. -/
structure ReadsOnce : Prop where
  /-- No text feeds two lines. -/
  once : ∀ k i j, Feeds isOld tag children k i → Feeds isOld tag children k j → i = j
  /-- What feeds a line comes before what feeds a later one. -/
  inOrder : ∀ k l i j, Feeds isOld tag children k i → Feeds isOld tag children l j → i < j → k < l
  /-- The code is made of texts of the element, each taken once at most. -/
  body : ∀ b, (ofElement isOld tag children).classify? = some b →
    ∃ pieces : List (List (List Char)), pieces.flatten.Sublist (Node.textsAll children) ∧
      b.body = Text.stripEnd Text.isBlank (pieces.flatMap fun piece => piece.flatten ++ ['\n'])

/-- Whether a place has the class of a line. -/
def isLine (q : PagePlace) : Bool :=
  (Selector.ofClass Marks.line).fits isOld q.parent q.tag

/-- The lines of an element with text in them have no line around them. -/
def LinesApart : Prop :=
  ∀ q ∈ (Node.element tag children).places none, isLine isOld q →
    ∀ q' ∈ q.inside, isLine isOld q' → q'.node.texts = []

/-! ## Lines by numbers -/

/-- The places of the lines of an element, with the numbers of their first texts. -/
def linePlaces : List (Nat × PagePlace) :=
  ((Node.element tag children).numbered 0 none).filter fun p => isLine isOld p.2

/-- The texts from a number on, as many as asked for, put together. -/
def pick (texts : List (List Char)) (run : Nat × Nat) : List Char :=
  ((texts.drop run.1).take run.2).flatten

/-- For each line the number of its first text, and how many texts it has. -/
def lineRuns : List (Nat × Nat) :=
  (linePlaces isOld tag children).map fun p => (p.1, p.2.node.texts.length)

variable {isOld tag children}

theorem mem_linePlaces {p : Nat × PagePlace} (h : p ∈ linePlaces isOld tag children) :
    p ∈ (Node.element tag children).numbered 0 none ∧ isLine isOld p.2 = true :=
  List.mem_filter.1 h

theorem lines_ofElement : (ofElement isOld tag children).lines =
    (linePlaces isOld tag children).map fun p => p.2.node.textContent := by
  have hplaces : ((Node.element tag children).places none).filter (isLine isOld) =
      (linePlaces isOld tag children).map Prod.snd := by
    rw [← Node.map_snd_numbered 0, List.filter_map]
    rfl
  have hselect := selectIn_eq_filter isOld (Selector.ofClass Marks.line) none
    (.element tag children)
  rw [ofElement, hselect, List.map_map]
  change (((Node.element tag children).places none).filter (isLine isOld)).map _ = _
  rw [hplaces, List.map_map]
  rfl

/-- **A line is the texts of its run.** -/
theorem lines_eq_map_pick : (ofElement isOld tag children).lines =
    (lineRuns isOld tag children).map (pick (Node.textsAll children)) := by
  rw [lines_ofElement, lineRuns, List.map_map]
  refine List.map_congr_left fun p hp => ?_
  rw [Node.textContent_eq_flatten, ← Node.drop_texts_of_numbered (mem_linePlaces hp).1]
  rfl

/-- Which texts make a line does not depend on the texts. -/
theorem lineRuns_setTextIn (k : Nat) (new : List Char) :
    lineRuns isOld tag (Node.setTextIn k new children) = lineRuns isOld tag children := by
  have hruns : ∀ ns, lineRuns isOld tag ns =
      ((((Node.element tag ns).numbered 0 none).map Node.outline).filter fun o =>
        (Selector.ofClass Marks.line).fits isOld o.1 o.2.1).map fun o => o.2.2 := by
    intro ns
    rw [List.filter_map, List.map_map]
    rfl
  rw [hruns, hruns]
  exact congrArg _ (congrArg _ (Node.map_outline_setText k new 0 none (.element tag children)))

/-! ## What feeds a line -/

/-- Texts outside of a run are of no account for it. -/
theorem pick_set_of_outside {texts : List (List Char)} {k first count : Nat}
    (h : ¬ (first ≤ k ∧ k < first + count)) (new : List Char) :
    pick (texts.set k new) (first, count) = pick texts (first, count) := by
  simp only [pick, List.drop_set]
  split
  · rfl
  · rw [List.take_set, List.set_eq_of_length_le]
    rw [List.length_take]
    omega

/-- Each text counts for what some texts are together. -/
theorem exists_flatten_set_ne {run : List (List Char)} {j : Nat} (h : j < run.length) :
    ∃ new, (run.set j new).flatten ≠ run.flatten := by
  refine ⟨'a' :: run[j], fun hsame => ?_⟩
  obtain ⟨before, after, hrun, -, hset⟩ : ∃ before after, run = before ++ run[j] :: after ∧
      before.length = j ∧ run.set j ('a' :: run[j]) = before ++ ('a' :: run[j]) :: after :=
    List.exists_of_set h
  have hlengths := congrArg List.length hsame
  have hown := congrArg (fun texts => texts.flatten.length) hrun
  rw [hset] at hlengths
  simp only [List.flatten_append, List.flatten_cons, List.length_append, List.length_cons]
    at hlengths hown
  omega

/-- So each text of a run does. -/
theorem exists_pick_set_ne {texts : List (List Char)} {k first count : Nat} (hfirst : first ≤ k)
    (hcount : k < first + count) (hlength : first + count ≤ texts.length) :
    ∃ new, pick (texts.set k new) (first, count) ≠ pick texts (first, count) := by
  have hk : k - first < ((texts.drop first).take count).length := by
    rw [List.length_take, List.length_drop]
    omega
  simp only [pick, List.drop_set, Nat.not_lt.2 hfirst, if_false, List.take_set]
  exact exists_flatten_set_ne hk

/-- **A text feeds a line** exactly if it is one of those at and below the line's element. -/
theorem feeds_iff {k i : Nat} : Feeds isOld tag children k i ↔
    ∃ p, (linePlaces isOld tag children)[i]? = some p ∧ p.1 ≤ k ∧ k < Node.stop p := by
  simp only [Feeds, lines_eq_map_pick, lineRuns_setTextIn, Node.textsAll_setTextIn,
    List.getElem?_map]
  rw [lineRuns, List.getElem?_map]
  cases hplace : (linePlaces isOld tag children)[i]? with
  | none => simp
  | some p =>
    have hstop : Node.stop p ≤ (Node.textsAll children).length := by
      have hle := (Node.le_of_numbered (mem_linePlaces (List.mem_of_getElem? hplace)).1).2
      rwa [Nat.zero_add] at hle
    simp only [Option.map_some, ne_eq, Option.some.injEq, exists_eq_left']
    constructor
    · rintro ⟨new, hne⟩
      exact Classical.byContradiction fun hout => hne (pick_set_of_outside hout new)
    · rintro ⟨hfirst, hcount⟩
      exact exists_pick_set_ne hfirst hcount hstop

/-! ## Lines that are apart -/

theorem LinesApart.pairwise (h : LinesApart isOld tag children) :
    (linePlaces isOld tag children).Pairwise fun p p' =>
      Node.stop p ≤ p'.1 ∨ p'.2.node.texts = [] := by
  refine ((Node.pairwise_numbered 0 none (.element tag children)).filter _).imp_of_mem ?_
  rintro p p' hp hp' (hinside | hstop)
  · obtain ⟨hmem, hline⟩ := mem_linePlaces hp
    refine .inr (h p.2 ?_ hline p'.2 hinside.mem (mem_linePlaces hp').2)
    rw [← Node.map_snd_numbered 0]
    exact List.mem_map_of_mem hmem
  · exact .inl hstop

theorem LinesApart.lt_of_feeds (h : LinesApart isOld tag children) {k l i j : Nat}
    (hk : Feeds isOld tag children k i) (hl : Feeds isOld tag children l j) (hij : i < j) :
    k < l := by
  obtain ⟨p, hp, -, hkp⟩ := feeds_iff.1 hk
  obtain ⟨p', hp', hpl, hlp⟩ := feeds_iff.1 hl
  obtain ⟨hi, rfl⟩ := List.getElem?_eq_some_iff.1 hp
  obtain ⟨hj, rfl⟩ := List.getElem?_eq_some_iff.1 hp'
  obtain hstop | hnone := List.pairwise_iff_getElem.1 h.pairwise i j hi hj hij
  · omega
  · rw [Node.stop, hnone, List.length_nil] at hlp
    omega

/-- The texts of places that are apart are texts of the page, each taken once at most. -/
theorem flatten_sublist {texts : List (List Char)} {ps : List (Nat × PagePlace)}
    (hpairwise : ps.Pairwise fun p p' => Node.stop p ≤ p'.1 ∨ p'.2.node.texts = []) (first : Nat)
    (hfirst : ∀ p ∈ ps, first ≤ p.1 ∨ p.2.node.texts = [])
    (htexts : ∀ p ∈ ps, (texts.drop p.1).take p.2.node.texts.length = p.2.node.texts) :
    (ps.map fun p => p.2.node.texts).flatten.Sublist (texts.drop first) := by
  induction ps generalizing first with
  | nil => exact List.nil_sublist _
  | cons p rest ih =>
    obtain ⟨hlater, hrest⟩ := List.pairwise_cons.1 hpairwise
    have htexts' := fun p' hp' => htexts p' (List.mem_cons_of_mem _ hp')
    rw [List.map_cons, List.flatten_cons]
    obtain hle | hnone := hfirst p List.mem_cons_self
    · have hbehind := ih hrest (Node.stop p) hlater htexts'
      rw [Node.stop, ← List.drop_drop] at hbehind
      have happend := (List.Sublist.refl ((texts.drop p.1).take p.2.node.texts.length)).append
        hbehind
      rw [List.take_append_drop, htexts p List.mem_cons_self] at happend
      exact happend.trans (List.drop_sublist_drop_left texts hle)
    · rw [hnone, List.nil_append]
      exact ih hrest first (fun p' hp' => hfirst p' (List.mem_cons_of_mem _ hp')) htexts'

theorem LinesApart.readsOnce (h : LinesApart isOld tag children) :
    ReadsOnce isOld tag children where
  once k i j hi hj := by
    obtain hlt | heq | hgt := Nat.lt_trichotomy i j
    · exact absurd (h.lt_of_feeds hi hj hlt) (Nat.lt_irrefl k)
    · exact heq
    · exact absurd (h.lt_of_feeds hj hi hgt) (Nat.lt_irrefl k)
  inOrder _ _ _ _ hk hl hij := h.lt_of_feeds hk hl hij
  body b hb := by
    refine ⟨((linePlaces isOld tag children).drop 1).map fun p => p.2.node.texts, ?_, ?_⟩
    · exact flatten_sublist h.pairwise.drop 0
        (fun p _ => .inl (Nat.zero_le _)) fun p hp =>
          Node.drop_texts_of_numbered (mem_linePlaces (List.mem_of_mem_drop hp)).1
    · rw [(of_classify hb).2, Fragment.body, bodyLines, lines_ofElement, ← List.map_drop,
        List.flatMap_map, List.flatMap_map]
      simp only [Node.textContent_eq_flatten]

/-- **A fragment is read once** exactly if no line has a line with text inside of it. -/
theorem readsOnce_iff : ReadsOnce isOld tag children ↔ LinesApart isOld tag children := by
  refine ⟨fun h q hq hline q' hq' hline' => ?_, LinesApart.readsOnce⟩
  refine Classical.byContradiction fun hne => ?_
  rw [← Node.map_snd_numbered 0] at hq
  obtain ⟨p, hp, rfl⟩ := List.mem_map.1 hq
  obtain ⟨p', rfl, hinside, hsub⟩ := Node.exists_numbered_inside hq' hp
  have hlines : [p, p'].Sublist (linePlaces isOld tag children) := by
    have hfilter := hsub.filter fun p => isLine isOld p.2
    simp only [List.filter_cons, hline, hline', if_true, List.filter_nil] at hfilter
    exact hfilter
  obtain ⟨place, hplace⟩ := List.sublist_iff_exists_orderEmbedding_getElem?_eq.1 hlines
  -- The first text of the inner line feeds the outer one too.
  have hlt : p'.1 < Node.stop p' := by
    rw [Node.stop]
    exact Nat.lt_add_of_pos_right (List.length_pos_iff.2 hne)
  have houter : Feeds isOld tag children p'.1 (place 0) :=
    feeds_iff.2 ⟨p, (hplace 0).symm, hinside.first_le, hlt.trans_le hinside.stop_le⟩
  have hinner : Feeds isOld tag children p'.1 (place 1) :=
    feeds_iff.2 ⟨p', (hplace 1).symm, Nat.le_refl _, hlt⟩
  have hsame := place.injective (h.once _ _ _ houter hinner)
  exact absurd hsame (by decide)

/-- The lines of a fragment as Doxygen writes it are apart. -/
theorem linesApart_element (f : Fragment) :
    LinesApart isOld elementTag (f.lines.map lineElement) := by
  intro q hq hline q' hq' _
  rw [Node.places, placesAll_lines] at hq
  rcases List.mem_cons.1 hq with rfl | hq
  · have hfragment : elementTag.selectsClass isOld Marks.line = false := by
      cases isOld <;> decide
    rw [isLine, selectsClass_fits, hfragment] at hline
    cases hline
  · obtain ⟨line, -, rfl⟩ := List.mem_map.1 hq
    rw [PagePlace.inside, placesAll_textNodes] at hq'
    cases hq'

end Fragment

namespace Html.Page

/-- No fragment of a page reads a text twice. -/
def ReadsFragmentsOnce (p : Page) : Prop :=
  ∀ q ∈ p.root.places none, (Selector.ofClass Marks.fragment).fits p.isOld q.parent q.tag →
    Fragment.ReadsOnce p.isOld q.tag q.children

/-- **Every fragment of a page is read once** exactly if in none of them a line has a line with text
inside of it. -/
theorem readsFragmentsOnce_iff (p : Page) : p.ReadsFragmentsOnce ↔
    ∀ q ∈ p.root.places none, (Selector.ofClass Marks.fragment).fits p.isOld q.parent q.tag →
      Fragment.LinesApart p.isOld q.tag q.children :=
  forall₂_congr fun _ _ => imp_congr_right fun _ => Fragment.readsOnce_iff

/-- A page with a fragment whose second line has a line inside of it. -/
def nestedLines : List Char :=
  ("<!DOCTYPE html><div class=\"fragment\"><div class=\"line\">@idl</div>" ++
    "<div class=\"line\">a<div class=\"line\">b</div></div></div>").toList

/-- The lines of its fragment. -/
def nestedChildren : List Node :=
  [.element Fragment.lineTag [.text "@idl".toList],
    .element Fragment.lineTag [.text ['a'], .element Fragment.lineTag [.text ['b']]]]

theorem read_nestedLines : (read nestedLines).isOld = false ∧
    (read nestedLines).root = .element (.bare "html") [.element (.bare "head") [],
      .element (.bare "body") [.element Fragment.elementTag nestedChildren]] := by
  unfold nestedLines nestedChildren Fragment.lineTag Fragment.elementTag Marks.line Marks.fragment
  simp only [String.toList_append]
  repeat rw [String.toList_ofList]
  decide +kernel

/-- **A text in a line inside of a line is read twice:** the code is `ab`, and then `b` again. -/
theorem not_forall_readsFragmentsOnce :
    ¬ ∀ text : List Char, (read text).ReadsFragmentsOnce := by
  intro hall
  obtain ⟨hnew, hroot⟩ := read_nestedLines
  have hplace : ⟨some (.bare "body"), Fragment.elementTag, nestedChildren⟩ ∈
      (read nestedLines).root.places none := by
    rw [hroot]
    simp [Node.places, Node.placesAll]
  have honce := hall nestedLines _ hplace (by rw [hnew]; decide)
  rw [hnew, Fragment.readsOnce_iff] at honce
  have hempty := honce ⟨some Fragment.elementTag, Fragment.lineTag,
    [.text ['a'], .element Fragment.lineTag [.text ['b']]]⟩
    (by simp [Node.places, Node.placesAll, nestedChildren]) (by decide)
    ⟨some Fragment.lineTag, Fragment.lineTag, [.text ['b']]⟩
    (by simp [PagePlace.inside, Node.places, Node.placesAll]) (by decide)
  exact absurd hempty (List.cons_ne_nil _ _)

end Html.Page
end DocHighlighter
