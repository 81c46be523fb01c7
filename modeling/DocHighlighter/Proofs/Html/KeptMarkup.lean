/-
# What is kept of markup that is read again

A page is read with its newlines in one spelling, so the markup of a node that is read again loses
its returns (`Node.unified`); and preformatted text loses the newline that it begins with
(`Node.reread`).  Regular content loses nothing else: its markup stays what it is exactly if there
is no return in it, and no preformatted element at or below the node begins with a newline
(`Node.Regular.markup_reread_iff`).

The induction is on the content.  A newline less is a character less, so the markup is kept if its
length is (`Node.length_markupIn_reread`).
-/

import DocHighlighter.Proofs.Html.Places
import DocHighlighter.Proofs.Html.Regular
import DocHighlighter.Proofs.Text.Newlines

namespace DocHighlighter

open Text (unifyNewlines)

/-! ## Characters -/

namespace Text

theorem unifyNewlines_ne_nil {text : List Char} (h : text ≠ []) : unifyNewlines text ≠ [] := by
  fun_cases unifyNewlines text with
  | case1 => exact absurd rfl h
  | case2 => exact List.cons_ne_nil _ _
  | case3 => exact List.cons_ne_nil _ _
  | case4 => exact List.cons_ne_nil _ _

end Text

namespace Html

/-- What is written for a character but a return or a newline has no return and begins with no
newline. -/
theorem textChar_plain {c : Char} (hreturn : c ≠ '\r') (hnewline : c ≠ '\n') :
    '\r' ∉ textChar c ∧ (textChar c).head? ≠ some '\n' ∧ textChar c ≠ [] := by
  unfold textChar
  split
  · decide
  · unfold Text.escapeChar
    split
    · decide
    · decide
    · decide
    · exact ⟨by simpa using Ne.symm hreturn, by simpa using hnewline, by simp⟩

theorem valueChar_plain {c : Char} (hreturn : c ≠ '\r') (hnewline : c ≠ '\n') :
    '\r' ∉ valueChar c ∧ (valueChar c).head? ≠ some '\n' ∧ valueChar c ≠ [] := by
  unfold valueChar
  split
  · decide
  · exact textChar_plain hreturn hnewline

theorem unifyNewlines_textChar (text : List Char) :
    unifyNewlines (text.flatMap textChar) = (unifyNewlines text).flatMap textChar :=
  Text.unifyNewlines_flatMap rfl rfl (fun _ => textChar_plain) text

theorem unifyNewlines_valueChar (text : List Char) :
    unifyNewlines (text.flatMap valueChar) = (unifyNewlines text).flatMap valueChar :=
  Text.unifyNewlines_flatMap rfl rfl (fun _ => valueChar_plain) text

/-! ## Newlines in one spelling -/

/-- An attribute with the newlines of its value in one spelling. -/
def Attribute.unified (a : Attribute) : Attribute :=
  { a with value := unifyNewlines a.value }

/-- A tag with the newlines of its values in one spelling. -/
def Tag.unified (t : Tag) : Tag :=
  { t with attributes := t.attributes.map Attribute.unified }

namespace Tag

variable (t : Tag)

theorem attribute?_unified (name : String) :
    t.unified.attribute? name = (t.attribute? name).map unifyNewlines := by
  have hfind : t.unified.attributes.find? (·.name == name) =
      (t.attributes.find? (·.name == name)).map Attribute.unified := by
    rw [unified, List.find?_map]
    rfl
  rw [attribute?, attribute?, hfind, Option.map_map, Option.map_map]
  rfl

/-- The spelling of newlines makes no difference to classes. -/
theorem fields_attribute?_unified {p : Char → Bool} (hreturn : p '\r' = true)
    (hnewline : p '\n' = true) (name : String) :
    Text.fields p ((t.unified.attribute? name).getD []) =
      Text.fields p ((t.attribute? name).getD []) := by
  rw [attribute?_unified]
  cases t.attribute? name with
  | none => rfl
  | some value => exact Text.fields_unifyNewlines hreturn hnewline value

theorem classes_unified : t.unified.classes = t.classes := by
  rw [classes, classes, fields_attribute?_unified t (by decide) (by decide)]

theorem selectsClass_unified (isOld : Bool) (name : String) :
    t.unified.selectsClass isOld name = t.selectsClass isOld name := by
  rw [selectsClass, selectsClass, markupClasses, markupClasses,
    fields_attribute?_unified t (by decide) (by decide)]

end Tag

namespace Node

mutual

/-- A node with the newlines of its texts and values in one spelling. -/
def unified : Node → Node
  | text content => text (unifyNewlines content)
  | comment content => comment content
  | element tag children => element tag.unified (unifiedAll children)

/-- Nodes side by side with their newlines in one spelling. -/
def unifiedAll : List Node → List Node
  | [] => []
  | n :: rest => n.unified :: unifiedAll rest

end

theorem isText_unified (n : Node) : n.unified.isText = n.isText := by
  cases n <;> rfl

theorem unifiedAll_eq_map (ns : List Node) : unifiedAll ns = ns.map unified := by
  induction ns with
  | nil => rfl
  | cons n rest ih => rw [unifiedAll, ih, List.map_cons]

theorem Separate.unifiedAll {ns : List Node} (h : Separate ns) : Separate (unifiedAll ns) := by
  rw [unifiedAll_eq_map]
  refine List.isChain_map_of_isChain unified (fun m n hmn => ?_) h
  rwa [isText_unified, isText_unified]

end Node

/-! ### Tags -/

theorem return_mem_nameSigns : '\r' ∈ Token.nameSigns := by
  decide

/-- An attribute that is read back has its newlines brought into one spelling where it stands. -/
theorem Attribute.IsKept.unifyNewlines_markup {a : Attribute} (h : a.IsKept) (rest : List Char) :
    unifyNewlines (a.markup ++ rest) = a.unified.markup ++ unifyNewlines rest := by
  have hname : '\r' ∉ ' ' :: (a.name.toList ++ ['=', '"']) := by
    have hplain : '\r' ∉ a.name.toList := fun hmem =>
      h.plain.name_plain '\r' hmem return_mem_nameSigns
    simp [hplain]
  have hmarkup : ∀ (a : Attribute) (rest : List Char), a.markup ++ rest =
      ' ' :: (a.name.toList ++ ['=', '"']) ++ (a.value.flatMap valueChar ++ '"' :: rest) := by
    simp [Attribute.markup]
  rw [hmarkup, Text.unifyNewlines_append_left hname, Text.unifyNewlines_append _ (by simp),
    unifyNewlines_valueChar, Text.unifyNewlines_cons (by decide), hmarkup]
  rfl

theorem unifyNewlines_attributes {as : List Attribute} (h : ∀ a ∈ as, a.IsKept)
    (rest : List Char) : unifyNewlines (as.flatMap Attribute.markup ++ rest) =
      (as.map Attribute.unified).flatMap Attribute.markup ++ unifyNewlines rest := by
  induction as with
  | nil => rfl
  | cons a as ih =>
    obtain ⟨ha, has⟩ := List.forall_mem_cons.1 h
    rw [List.flatMap_cons, List.append_assoc, ha.unifyNewlines_markup, ih has, List.map_cons,
      List.flatMap_cons, List.append_assoc]

namespace Tag.IsKept

variable {t : Tag} (h : t.IsKept)
include h

theorem return_not_mem_name : '\r' ∉ t.name.toList := by
  intro hmem
  have hplain := h.name.plain '\r' hmem
  exact absurd hplain (by decide)

theorem unifyNewlines_opening (rest : List Char) :
    unifyNewlines (t.opening ++ rest) = t.unified.opening ++ unifyNewlines rest := by
  have hname : '\r' ∉ '<' :: t.name.toList := by
    simp [h.return_not_mem_name]
  have hopening : ∀ t : Tag, t.opening ++ rest =
      '<' :: t.name.toList ++ (t.attributes.flatMap Attribute.markup ++ '>' :: rest) := by
    simp [Tag.opening]
  rw [hopening, Text.unifyNewlines_append_left hname, unifyNewlines_attributes h.attributes,
    Text.unifyNewlines_cons (by decide)]
  simp [Tag.opening, Tag.unified]

theorem unifyNewlines_closing (rest : List Char) :
    unifyNewlines (t.closing ++ rest) = t.unified.closing ++ unifyNewlines rest := by
  have hclosing : t.unified.closing = t.closing := rfl
  rw [hclosing]
  refine Text.unifyNewlines_append_left ?_ rest
  rw [Tag.closing]
  split
  · exact List.not_mem_nil
  · simp [h.return_not_mem_name]

theorem unified : t.unified.IsKept := by
  refine ⟨h.space, h.name, h.lower, fun a ha => ?_, ?_⟩
  · obtain ⟨a', ha', rfl⟩ := List.mem_map.1 ha
    obtain ⟨hplain, hname, hvalue⟩ := h.attributes a' ha'
    refine ⟨⟨hplain.name_ne_nil, hplain.name_plain, fun hquote => ?_⟩, hname, fun hnul => ?_⟩
    · obtain ⟨c, -, hc⟩ := List.mem_flatMap.1 hquote
      exact quote_not_mem_valueChar c hc
    · exact (Text.mem_of_mem_unifyNewlines hnul).2.elim hvalue (by decide)
  · have hnames : t.unified.attributes.map Attribute.name = t.attributes.map Attribute.name := by
      rw [Tag.unified, List.map_map]
      rfl
    rw [hnames]
    exact h.names

end Tag.IsKept

/-! ### Nodes -/

namespace Node

variable {names : List String} {n : Node} {ns : List Node}

/-- A newline is not the first character behind a text. -/
theorem head?_markups_ne {page : List Char} (hns : ∀ n ∈ ns, n.Regular names)
    (hfirst : NoTextFirst ns) (hpage : page.head? ≠ some '\n') :
    (markupsIn false ns ++ page).head? ≠ some '\n' := by
  cases ns with
  | nil => exact hpage
  | cons n rest =>
    obtain ⟨more, -, -, htext, -⟩ := (hns n List.mem_cons_self).startsMarkup (hfirst n rfl)
      (markupsIn false rest ++ page)
    have hmarkup : markupsIn false (n :: rest) ++ page = '<' :: more := by
      rw [← htext]
      exact List.append_assoc ..
    rw [hmarkup]
    exact fun h => absurd (Option.some.inj h) (by decide)

theorem nameRule?_of_plainText : ∀ name ∈ plainTextNames, nameRule? name = none := by
  decide +kernel

theorem nameRule?_of_void : ∀ name ∈ voidNames,
    nameRule? name = none ∨ nameRule? name = some .empty := by
  decide +kernel

theorem holdsPlainText_of_nameRule? {tag : Tag} {rule : NameRule}
    (hrule : nameRule? tag.name = some rule) : tag.holdsPlainText = false := by
  rw [Tag.holdsPlainText, Tag.isOneOf, Bool.and_eq_false_iff]
  refine .inr (Bool.eq_false_iff.2 fun hmem => ?_)
  rw [nameRule?_of_plainText _ (List.contains_iff_mem.1 hmem)] at hrule
  cases hrule

/-- The newlines of a node can be brought into one spelling before or after it is written. -/
def Unifies (n : Node) : Prop :=
  ∀ page : List Char, (n.isText = true → page.head? ≠ some '\n') →
    unifyNewlines (n.markup ++ page) = n.unified.markup ++ unifyNewlines page

theorem Unifies.markup {n : Node} (h : n.Unifies) :
    unifyNewlines n.markup = n.unified.markup := by
  simpa [unifyNewlines] using h [] (by simp)

theorem unifyNewlines_markups (hns : ∀ n ∈ ns, n.Regular names) (hunify : ∀ n ∈ ns, n.Unifies)
    (hseparate : Separate ns) {page : List Char} (hpage : page.head? ≠ some '\n') :
    unifyNewlines (markupsIn false ns ++ page) =
      markupsIn false (unifiedAll ns) ++ unifyNewlines page := by
  induction ns with
  | nil => rfl
  | cons n rest ih =>
    obtain ⟨-, hrest⟩ := List.forall_mem_cons.1 hns
    obtain ⟨hn, hlater⟩ := List.forall_mem_cons.1 hunify
    have hfirst := hn (markupsIn false rest ++ page) fun htext =>
      head?_markups_ne hrest (hseparate.noTextFirst htext) hpage
    rw [markupsIn, List.append_assoc, unifiedAll, markupsIn, List.append_assoc,
      ← ih hrest hlater hseparate.tail]
    exact hfirst

theorem unifies_element {tag : Tag} {children : List Node} (htag : tag.IsKept)
    {rule : NameRule} (hrule : nameRule? tag.name = some rule)
    (hchildren : ∀ page : List Char, page.head? ≠ some '\n' →
      unifyNewlines (markupsIn false children ++ page) =
        markupsIn false (unifiedAll children) ++ unifyNewlines page)
    (hempty : rule = .empty → children = []) : (element tag children).Unifies := by
  intro page _
  have hmarkup : ∀ (t : Tag) (cs : List Node), t.holdsPlainText = false →
      (element t cs).markup ++ page = t.opening ++ (markupsIn false cs ++ (t.closing ++ page)) := by
    intro t cs hplain
    rw [markup, markupIn, hplain, List.append_assoc, List.append_assoc]
  have hinside : unifyNewlines (markupsIn false children ++ (tag.closing ++ page)) =
      markupsIn false (unifiedAll children) ++ unifyNewlines (tag.closing ++ page) := by
    cases hvoid : tag.isOneOf voidNames with
    | false => exact hchildren _ (by rw [Tag.closing, hvoid]; simp)
    | true =>
      have hmem : tag.name ∈ voidNames := List.contains_iff_mem.1 (Bool.and_eq_true_iff.1 hvoid).2
      have hnone : children = [] := by
        refine hempty ?_
        rcases nameRule?_of_void _ hmem with h | h
        · rw [h] at hrule
          cases hrule
        · exact Option.some.inj (hrule.symm.trans h)
      rw [hnone]
      rfl
  have hplain := holdsPlainText_of_nameRule? hrule
  have hplain' : tag.unified.holdsPlainText = false := hplain
  rw [hmarkup _ _ hplain, htag.unifyNewlines_opening, hinside, htag.unifyNewlines_closing, unified,
    markup, markupIn, hplain', List.append_assoc, List.append_assoc]

/-- **The newlines of regular content** can be brought into one spelling before or after it is
written. -/
theorem Regular.unifies (h : n.Regular names) : n.Unifies := by
  induction h with
  | @text names content hne hnul =>
    intro page hpage
    have hmarkup : ∀ content : List Char, (Node.text content).markup = content.flatMap textChar :=
      fun _ => rfl
    rw [hmarkup, Text.unifyNewlines_append _ (hpage rfl), unifyNewlines_textChar, unified, hmarkup]
  | @comment names content h =>
    intro page _
    refine Text.unifyNewlines_append_left ?_ page
    rw [markup, markupIn]
    simp [h.noReturn]
  | plain htag hrule hseparate hchildren ih =>
    exact unifies_element htag hrule (fun page => unifyNewlines_markups hchildren ih hseparate)
      (by simp)
  | preformatted htag hrule hseparate hchildren ih =>
    exact unifies_element htag hrule (fun page => unifyNewlines_markups hchildren ih hseparate)
      (by simp)
  | formatting htag hrule hnot hseparate hchildren ih =>
    exact unifies_element htag hrule (fun page => unifyNewlines_markups hchildren ih hseparate)
      (by simp)
  | empty htag hrule => exact unifies_element htag hrule (fun _ _ => rfl) fun _ => rfl

/-- Regular content stays regular. -/
theorem Regular.unified (h : n.Regular names) : n.unified.Regular names := by
  have hall : ∀ {names : List String} {ns : List Node},
      (∀ n ∈ ns, n.unified.Regular names) → ∀ n ∈ unifiedAll ns, n.Regular names := by
    intro names ns hns n hn
    rw [unifiedAll_eq_map] at hn
    obtain ⟨m, hm, rfl⟩ := List.mem_map.1 hn
    exact hns m hm
  induction h with
  | text hne hnul =>
    exact .text (Text.unifyNewlines_ne_nil hne) fun hmem =>
      (Text.mem_of_mem_unifyNewlines hmem).2.elim hnul (by decide)
  | comment h => exact .comment h
  | plain htag hrule hseparate _ ih =>
    exact .plain htag.unified hrule hseparate.unifiedAll (hall ih)
  | preformatted htag hrule hseparate _ ih =>
    exact .preformatted htag.unified hrule hseparate.unifiedAll (hall ih)
  | formatting htag hrule hnot hseparate _ ih =>
    exact .formatting htag.unified hrule hnot hseparate.unifiedAll (hall ih)
  | empty htag hrule => exact .empty htag.unified hrule

/-! ### Nodes without returns -/

theorem unifyNewlines_of_flatMap {write : Char → List Char} (hreturn : write '\r' = ['\r'])
    {text : List Char} (h : '\r' ∉ text.flatMap write) : unifyNewlines text = text := by
  refine Text.unifyNewlines_of_not_mem fun hmem => h (List.mem_flatMap.2 ⟨'\r', hmem, ?_⟩)
  rw [hreturn]
  exact List.mem_singleton_self _

theorem unified_tag_of_not_mem {tag : Tag} (h : '\r' ∉ tag.opening) : tag.unified = tag := by
  have hattributes : tag.attributes.map Attribute.unified = tag.attributes := by
    refine (List.map_congr_left fun a ha => ?_).trans (List.map_id _)
    have hvalue : '\r' ∉ a.value.flatMap valueChar := by
      intro hmem
      refine h ?_
      rw [Tag.opening]
      refine List.mem_append_left _ (List.mem_append_right _ (List.mem_flatMap.2 ⟨a, ha, ?_⟩))
      rw [Attribute.markup]
      simp [hmem]
    rw [Attribute.unified, unifyNewlines_of_flatMap rfl hvalue]
    rfl
  rw [Tag.unified, hattributes]

mutual

/-- A node whose markup has no return has its newlines in one spelling. -/
theorem unified_of_not_mem {plain : Bool} : ∀ {n : Node}, '\r' ∉ n.markupIn plain → n.unified = n
  | text content, h => by
    rw [markupIn] at h
    rw [unified]
    split at h
    · rw [Text.unifyNewlines_of_not_mem h]
    · rw [unifyNewlines_of_flatMap rfl h]
  | comment _, _ => rfl
  | element tag children, h => by
    rw [markupIn, List.mem_append, List.mem_append, not_or, not_or] at h
    rw [unified, unified_tag_of_not_mem h.1.1, unifiedAll_of_not_mem h.1.2]

theorem unifiedAll_of_not_mem {plain : Bool} : ∀ {ns : List Node},
    '\r' ∉ markupsIn plain ns → unifiedAll ns = ns
  | [], _ => rfl
  | n :: rest, h => by
    rw [markupsIn, List.mem_append, not_or] at h
    rw [unifiedAll, unified_of_not_mem h.1, unifiedAll_of_not_mem h.2]

end

/-! ## Newlines at the start -/

/-- Whether nodes begin with a newline. -/
def beginWithNewline : List Node → Bool
  | .text ('\n' :: _) :: _ => true
  | _ => false

theorem withoutNewline_cases (ns : List Node) :
    (beginWithNewline ns = true ∧ ∀ plain, '\n' :: markupsIn plain (withoutNewline ns) =
      markupsIn plain ns) ∨ (beginWithNewline ns = false ∧ withoutNewline ns = ns) := by
  by_cases h : ∃ content rest, ns = .text ('\n' :: content) :: rest
  · obtain ⟨content, rest, rfl⟩ := h
    refine .inl ⟨rfl, fun plain => ?_⟩
    cases content <;> cases plain <;> rfl
  · refine .inr ⟨?_, ?_⟩
    · unfold beginWithNewline
      split
      · exact absurd ⟨_, _, rfl⟩ h
      · rfl
    · unfold withoutNewline
      split
      · exact absurd ⟨_, _, rfl⟩ h
      · exact absurd ⟨_, _, rfl⟩ h
      · rfl

theorem beginWithNewline_rereadAll (ns : List Node) :
    beginWithNewline (rereadAll ns) = beginWithNewline ns := by
  cases ns with
  | nil => rfl
  | cons n rest =>
    rw [rereadAll]
    cases n with
    | text content =>
      rw [reread]
      unfold beginWithNewline
      grind
    | comment content => rfl
    | element tag children =>
      rw [reread]
      rfl

end Node

/-- Whether an element is preformatted and begins with a newline. -/
def PagePlace.losesNewline (p : PagePlace) : Bool :=
  p.tag.isOneOf preformattedNames && Node.beginWithNewline p.children

namespace Node

mutual

/-- **A node that is read again loses a character for each newline** that preformatted text in it
begins with. -/
theorem length_markupIn_reread (parent : Option Tag) (plain : Bool) : ∀ n : Node,
    (n.reread.markupIn plain).length + (n.places parent).countP PagePlace.losesNewline =
      (n.markupIn plain).length
  | text _ => rfl
  | comment _ => rfl
  | element tag children => by
    have ih := length_markupsIn_rereadAll (some tag) tag.holdsPlainText children
    have hloses : (⟨parent, tag, children⟩ : PagePlace).losesNewline =
        (tag.isOneOf preformattedNames && beginWithNewline (rereadAll children)) := by
      rw [beginWithNewline_rereadAll]
      rfl
    rw [reread, markupIn, markupIn, places, List.countP_cons, hloses]
    simp only [List.length_append]
    cases hpre : tag.isOneOf preformattedNames with
    | false => simp only [Bool.false_eq_true, if_false, Bool.false_and]; omega
    | true =>
      rcases withoutNewline_cases (rereadAll children) with ⟨hbegin, hmarkup⟩ | ⟨hbegin, hsame⟩
      · rw [← hmarkup, List.length_cons] at ih
        simp only [if_true, hbegin, Bool.and_true]
        omega
      · simp only [if_true, hbegin, hsame, Bool.and_false, Bool.false_eq_true, if_false]
        omega

theorem length_markupsIn_rereadAll (parent : Option Tag) (plain : Bool) : ∀ ns : List Node,
    (markupsIn plain (rereadAll ns)).length +
        (placesAll parent ns).countP PagePlace.losesNewline = (markupsIn plain ns).length
  | [] => rfl
  | n :: rest => by
    have hn := length_markupIn_reread parent plain n
    have hrest := length_markupsIn_rereadAll parent plain rest
    rw [rereadAll, markupsIn, placesAll, List.countP_append, List.length_append, markupsIn,
      List.length_append]
    omega

end

mutual

/-- Nothing else comes into its markup. -/
theorem markupIn_reread_sublist (plain : Bool) : ∀ n : Node,
    (n.reread.markupIn plain).Sublist (n.markupIn plain)
  | text _ => List.Sublist.refl _
  | comment _ => List.Sublist.refl _
  | element tag children => by
    have ih := markupsIn_rereadAll_sublist tag.holdsPlainText children
    have hinside : (markupsIn tag.holdsPlainText (if tag.isOneOf preformattedNames then
        withoutNewline (rereadAll children) else rereadAll children)).Sublist
          (markupsIn tag.holdsPlainText children) := by
      split
      · rcases withoutNewline_cases (rereadAll children) with ⟨-, hmarkup⟩ | ⟨-, hsame⟩
        · rw [← hmarkup] at ih
          exact (List.sublist_cons_self _ _).trans ih
        · rwa [hsame]
      · exact ih
    rw [reread, markupIn, markupIn]
    exact ((List.Sublist.refl _).append hinside).append (List.Sublist.refl _)

theorem markupsIn_rereadAll_sublist (plain : Bool) : ∀ ns : List Node,
    (markupsIn plain (rereadAll ns)).Sublist (markupsIn plain ns)
  | [] => List.Sublist.refl _
  | n :: rest =>
    (markupIn_reread_sublist plain n).append (markupsIn_rereadAll_sublist plain rest)

end

/-- A node that is read again keeps its markup if nothing in it loses a newline. -/
theorem markup_reread_iff (parent : Option Tag) (n : Node) :
    n.reread.markup = n.markup ↔ ∀ p ∈ n.places parent, p.losesNewline = false := by
  have hlength := length_markupIn_reread parent false n
  have hcount : (n.places parent).countP PagePlace.losesNewline = 0 ↔
      ∀ p ∈ n.places parent, p.losesNewline = false := by
    simp [List.countP_eq_zero]
  rw [← hcount]
  constructor
  · intro h
    have hsame : (n.reread.markupIn false).length = (n.markupIn false).length :=
      congrArg List.length h
    omega
  · intro h
    exact (markupIn_reread_sublist false n).eq_of_length (by omega)

/-- **Regular content keeps its markup** exactly if there is no return in it and no preformatted
text in it begins with a newline. -/
theorem Regular.markup_reread_iff {names : List String} {n : Node} (h : n.Regular names)
    (hn : n.isText = false) (parent : Option Tag) : n.unified.reread.markup = n.markup ↔
      '\r' ∉ n.markup ∧ ∀ p ∈ n.places parent, p.losesNewline = false := by
  have hunify : n.unified.markup = unifyNewlines n.markup := by
    have hpage := h.unifies [] fun htext => by rw [hn] at htext; cases htext
    rw [List.append_nil] at hpage
    rw [hpage, unifyNewlines, List.append_nil]
  constructor
  · intro hsame
    have hreturn : '\r' ∉ n.markup := by
      rw [← hsame]
      intro hmem
      refine Text.return_not_mem_unifyNewlines n.markup ?_
      rw [← hunify]
      exact (markupIn_reread_sublist false n.unified).subset hmem
    rw [unified_of_not_mem hreturn] at hsame
    exact ⟨hreturn, (Node.markup_reread_iff parent n).1 hsame⟩
  · rintro ⟨hreturn, hkeeps⟩
    rw [unified_of_not_mem hreturn]
    exact (Node.markup_reread_iff parent n).2 hkeeps

end Node
end Html
end DocHighlighter
