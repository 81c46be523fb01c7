/-
# The order in which words are tried

A pattern for one of some words is made of what the words have in common: a beginning or an end
that all of them share stands once, and words of one character become one set.  That changes
nothing about which words there are, but it fixes the order in which they are tried.

| the words, in rising order | are tried in this order |
|---|---|
| one of them is empty | the others, then the empty one |
| the first has one character, and it is not the only such | the others, then these |
| all begin alike | as their rests |
| all end alike | as what is before the end, put in rising order again |
| else | those that begin like the first, then the others |

So a word always comes before its own beginnings.
-/

namespace DocHighlighter
namespace Pattern

/-- What two texts begin with alike. -/
def sharedStart : List Char → List Char → List Char
  | a :: u, b :: v => if a = b then a :: sharedStart u v else []
  | _, _ => []

/-- What all texts of a list begin with. -/
def commonStart : List (List Char) → List Char
  | [] => []
  | [w] => w
  | w :: v :: more => sharedStart w (commonStart (v :: more))

/-- What all texts of a list end with. -/
def commonEnd (words : List (List Char)) : List Char :=
  (commonStart (words.map List.reverse)).reverse

/-- Words in rising order. -/
def inOrder (words : List (List Char)) : List (List Char) :=
  words.mergeSort fun u v => !decide (v < u)

theorem inOrder_perm (words : List (List Char)) : (inOrder words).Perm words :=
  List.mergeSort_perm ..

theorem isPrefix_sharedStart : ∀ u v, sharedStart u v <+: u ∧ sharedStart u v <+: v
  | [], v => ⟨List.prefix_rfl, List.nil_prefix⟩
  | a :: u, [] => ⟨List.nil_prefix, List.prefix_rfl⟩
  | a :: u, b :: v => by
    rw [sharedStart]
    split
    · next h =>
      subst h
      obtain ⟨hu, hv⟩ := isPrefix_sharedStart u v
      exact ⟨List.cons_prefix_cons.2 ⟨rfl, hu⟩, List.cons_prefix_cons.2 ⟨rfl, hv⟩⟩
    · exact ⟨List.nil_prefix, List.nil_prefix⟩

theorem isPrefix_commonStart : ∀ {words : List (List Char)} {w : List Char}, w ∈ words →
    commonStart words <+: w
  | [v], w, h => List.mem_singleton.1 h ▸ List.prefix_rfl
  | v :: v' :: more, w, h => by
    obtain ⟨hfirst, hrest⟩ := isPrefix_sharedStart v (commonStart (v' :: more))
    rcases List.mem_cons.1 h with rfl | h
    · exact hfirst
    · exact hrest.trans (isPrefix_commonStart h)

theorem isSuffix_commonEnd {words : List (List Char)} {w : List Char} (h : w ∈ words) :
    commonEnd words <:+ w := by
  have hbegins := isPrefix_commonStart (List.mem_map_of_mem (f := List.reverse) h)
  rwa [← List.reverse_suffix, List.reverse_reverse] at hbegins

/-- Words that all begin with one character have a beginning in common. -/
theorem head?_commonStart {a : Char} : ∀ {words : List (List Char)}, words ≠ [] →
    (∀ w ∈ words, w.head? = some a) → (commonStart words).head? = some a
  | [w], _, h => h w List.mem_cons_self
  | w :: v :: more, _, h => by
    have hfirst := h w List.mem_cons_self
    have hrest := head?_commonStart (List.cons_ne_nil v more) fun u hu =>
      h u (List.mem_cons_of_mem _ hu)
    rw [commonStart]
    cases w with
    | nil => cases hfirst
    | cons b w =>
      cases hstart : commonStart (v :: more) with
      | nil =>
        rw [hstart] at hrest
        cases hrest
      | cons c rest =>
        rw [hstart] at hrest
        obtain rfl := Option.some.inj hfirst
        obtain rfl := Option.some.inj hrest
        rw [sharedStart, if_pos rfl]
        rfl

/-- If there is no beginning in common, not all words begin like the first. -/
theorem exists_head?_ne {first : List Char} {more : List (List Char)}
    (hempty : [] ∉ first :: more) (hstart : commonStart (first :: more) = []) :
    ∃ w ∈ first :: more, w.head? ≠ first.head? := by
  refine Classical.byContradiction fun hall => ?_
  cases first with
  | nil => exact hempty List.mem_cons_self
  | cons a first =>
    have hhead := head?_commonStart (List.cons_ne_nil (a :: first) more) fun w hw =>
      Decidable.not_not.1 fun hne => hall ⟨w, hw, hne⟩
    rw [hstart] at hhead
    cases hhead

/-! ## How much there is to try -/

/-- The characters and the words of a list. -/
def sizeOfWords (words : List (List Char)) : Nat :=
  words.flatten.length + words.length

theorem sizeOfWords_cons (w : List Char) (words : List (List Char)) :
    sizeOfWords (w :: words) = w.length + 1 + sizeOfWords words := by
  rw [sizeOfWords, sizeOfWords, List.flatten_cons, List.length_append, List.length_cons]
  omega

theorem sizeOfWords_of_perm {words words' : List (List Char)} (h : words.Perm words') :
    sizeOfWords words = sizeOfWords words' := by
  rw [sizeOfWords, sizeOfWords, h.flatten.length_eq, h.length_eq]

theorem sizeOfWords_filter_le (p : List Char → Bool) (words : List (List Char)) :
    sizeOfWords (words.filter p) ≤ sizeOfWords words := by
  induction words with
  | nil => exact Nat.le_refl _
  | cons w more ih =>
    rw [List.filter_cons]
    split
    · rw [sizeOfWords_cons, sizeOfWords_cons]
      omega
    · rw [sizeOfWords_cons]
      omega

theorem sizeOfWords_filter_lt {p : List Char → Bool} {words : List (List Char)} {w : List Char}
    (hw : w ∈ words) (hp : p w = false) : sizeOfWords (words.filter p) < sizeOfWords words := by
  induction words with
  | nil => cases hw
  | cons v more ih =>
    rw [List.filter_cons, sizeOfWords_cons]
    have hle := sizeOfWords_filter_le p more
    rcases List.mem_cons.1 hw with rfl | hw
    · rw [if_neg (by simp [hp])]
      omega
    · have hlt := ih hw
      split
      · rw [sizeOfWords_cons]
        omega
      · omega

/-- Words that are all made shorter are less. -/
theorem sizeOfWords_map_lt {f : List Char → List Char} {words : List (List Char)}
    (hne : words ≠ []) (hlt : ∀ w ∈ words, (f w).length < w.length) :
    sizeOfWords (words.map f) < sizeOfWords words := by
  induction words with
  | nil => exact absurd rfl hne
  | cons w more ih =>
    have hw := hlt w List.mem_cons_self
    rw [List.map_cons, sizeOfWords_cons, sizeOfWords_cons]
    cases more with
    | nil =>
      simp only [List.map_nil]
      omega
    | cons v more =>
      have hmore := ih (List.cons_ne_nil v more) fun u hu => hlt u (List.mem_cons_of_mem _ hu)
      omega

theorem sizeOfWords_drop_lt {words : List (List Char)} (hne : words ≠ [])
    (hstart : commonStart words ≠ []) :
    sizeOfWords (words.map (·.drop (commonStart words).length)) < sizeOfWords words := by
  refine sizeOfWords_map_lt hne fun w hw => ?_
  have hle := (isPrefix_commonStart hw).length_le
  have hpos := List.length_pos_iff.2 hstart
  rw [List.length_drop]
  omega

theorem sizeOfWords_take_lt {words : List (List Char)} (hne : words ≠ [])
    (hstop : commonEnd words ≠ []) :
    sizeOfWords (words.map fun w => w.take (w.length - (commonEnd words).length)) <
      sizeOfWords words := by
  refine sizeOfWords_map_lt hne fun w hw => ?_
  have hle := (isSuffix_commonEnd hw).length_le
  have hpos := List.length_pos_iff.2 hstop
  rw [List.length_take]
  omega

/-- The order in which the words of a list in rising order are tried. -/
def tryOrder : List (List Char) → List (List Char)
  | [] => []
  | [w] => [w]
  | first :: second :: more =>
    let words := first :: second :: more
    let letters := words.filter (·.length == 1)
    let start := commonStart words
    let stop := commonEnd words
    if [] ∈ words then tryOrder (words.filter (!·.isEmpty)) ++ [[]]
    else if first.length = 1 ∧ 1 < letters.length then
      tryOrder (words.filter (·.length != 1)) ++ letters
    else if start ≠ [] then (tryOrder (words.map (·.drop start.length))).map (start ++ ·)
    else if stop ≠ [] then
      (tryOrder (inOrder (words.map fun w => w.take (w.length - stop.length)))).map (· ++ stop)
    else
      tryOrder (words.filter (·.head? == first.head?)) ++
        tryOrder (words.filter (·.head? != first.head?))
termination_by words => sizeOfWords words
decreasing_by
  · next hempty => exact sizeOfWords_filter_lt hempty rfl
  · next hletters => exact sizeOfWords_filter_lt List.mem_cons_self (by simp [hletters.1])
  · next hstart => exact sizeOfWords_drop_lt (List.cons_ne_nil _ _) hstart
  · next hstop =>
    rw [sizeOfWords_of_perm (inOrder_perm _)]
    exact sizeOfWords_take_lt (List.cons_ne_nil _ _) hstop
  · next hempty _ hstart _ =>
    obtain ⟨w, hw, hhead⟩ := exists_head?_ne hempty (Decidable.not_not.1 hstart)
    exact sizeOfWords_filter_lt hw (by simpa using hhead)
  · exact sizeOfWords_filter_lt List.mem_cons_self (by simp)

end Pattern
end DocHighlighter
