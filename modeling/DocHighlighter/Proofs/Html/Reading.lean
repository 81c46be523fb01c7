/-
# What the tokens of a page are read from

The three kinds of token that written pages have, read one at a time in front of
any rest of the page:

| written | read as |
|---|---|
| a text without `<`, before markup or the end | the text, its references replaced (`next_text`) |
| a name, quoted values, `>` or `/>` | a start tag (`next_opening`, `next_selfClosing`) |
| a name between `</` and `>` | an end tag (`next_closing`) |

In elements whose text only their end tag ends, the text is read up to that tag
(`upToEndTag_run`, `upToEndTag_closing`).
-/

import DocHighlighter.Html.Token
import DocHighlighter.Proofs.Html.Escaping

namespace DocHighlighter
namespace Html
namespace Token

/-- What ends a run of text: markup, or the end of the page. -/
def EndsText (page : List Char) : Prop :=
  page = [] ∨ ∃ rest, page = '<' :: rest ∧ opensMarkup rest = true

theorem textRun_append {run page : List Char} (hrun : '<' ∉ run) (hpage : EndsText page) :
    textRun (run ++ page) = (run, page) := by
  induction run with
  | nil =>
    rcases hpage with rfl | ⟨rest, rfl, hopens⟩
    · rfl
    · simp [textRun, hopens]
  | cons c run ih =>
    obtain ⟨hc, hrun⟩ := not_or.1 fun h => hrun (List.mem_cons.2 h)
    rw [List.cons_append, textRun, ih hrun]
    simp [Ne.symm hc]

/-- A text that markup or the end of the page ends is read with its references replaced. -/
theorem next_text {foreign : Bool} {c : Char} {run page : List Char} (h : '<' ∉ c :: run)
    (hpage : EndsText page) :
    next (.markup foreign) c (run ++ page) =
      (some (.text (Reference.decode false (c :: run))), page) := by
  obtain ⟨hc, hrun⟩ := not_or.1 fun h' => h (List.mem_cons.2 h')
  simp [next, textRun_append hrun hpage, Ne.symm hc]

/-! ## Tags -/

/-- The signs that no name of an attribute may have. -/
def nameSigns : List Char :=
  [' ', '\t', '\n', '\x0c', '\r', '/', '>', '=']

/-- An attribute as it is written. -/
structure WrittenAttribute where
  name : List Char
  value : List Char

namespace WrittenAttribute

/-- The attribute with the space before it. -/
def text (a : WrittenAttribute) : List Char :=
  ' ' :: a.name ++ '=' :: '"' :: a.value ++ ['"']

/-- The attribute as it is read. -/
def read (a : WrittenAttribute) : Attribute :=
  ⟨nameOf a.name, withoutNul (Reference.decode true a.value)⟩

/-- A written attribute that ends where it should: its name has no sign of a tag in it, and its
value no quote. -/
structure IsPlain (a : WrittenAttribute) : Prop where
  name_ne_nil : a.name ≠ []
  name_plain : ∀ c ∈ a.name, c ∉ nameSigns
  value_plain : '"' ∉ a.value

end WrittenAttribute

theorem plain_of_not_mem_nameSigns {c : Char} (h : c ∉ nameSigns) :
    Text.isMarkupBlank c = false ∧ c ≠ '/' ∧ c ≠ '>' ∧ c ≠ '=' := by
  simp only [nameSigns, List.mem_cons, List.not_mem_nil, or_false, not_or] at h
  obtain ⟨hspace, htab, hnewline, hfeed, hreturn, hslash, hclose, heq⟩ := h
  simp [Text.isMarkupBlank, hspace, htab, hnewline, hfeed, hreturn, hslash, hclose, heq]

theorem tagRest_name {read name rest : List Char} {known : List Attribute}
    (h : ∀ c ∈ name, c ∉ nameSigns) :
    tagRest (.name read) known (name ++ '=' :: rest) =
      tagRest (.beforeValue (name.reverse ++ read)) known rest := by
  induction name generalizing read with
  | nil => rfl
  | cons c name ih =>
    obtain ⟨hblank, hslash, hclose, heq⟩ := plain_of_not_mem_nameSigns (h c List.mem_cons_self)
    rw [List.cons_append, tagRest]
    simp only [hblank, beq_iff_eq, hslash, hclose, heq, if_false, Bool.false_eq_true]
    rw [ih fun d hd => h d (List.mem_cons_of_mem _ hd), List.reverse_cons, List.append_assoc]
    rfl

theorem tagRest_quoted {name read value rest : List Char} {known : List Attribute}
    (h : '"' ∉ value) :
    tagRest (.quoted '"' name read) known (value ++ '"' :: rest) =
      tagRest .between (keep known name (value.reverse ++ read)) rest := by
  induction value generalizing read with
  | nil => rfl
  | cons c value ih =>
    obtain ⟨hc, hvalue⟩ := not_or.1 fun h' => h (List.mem_cons.2 h')
    rw [List.cons_append, tagRest]
    simp only [beq_iff_eq, Ne.symm hc, if_false]
    rw [ih hvalue, List.reverse_cons, List.append_assoc]
    rfl

/-- A written attribute is read and kept, if none of its name is known. -/
theorem tagRest_attribute {a : WrittenAttribute} (ha : a.IsPlain) {known : List Attribute}
    (hnew : ∀ k ∈ known, k.name ≠ a.read.name) (rest : List Char) :
    tagRest .between known (a.text ++ rest) = tagRest .between (known ++ [a.read]) rest := by
  obtain ⟨c, name, hname⟩ := List.exists_cons_of_ne_nil ha.name_ne_nil
  have hplain := ha.name_plain
  rw [hname] at hplain
  obtain ⟨hblank, hslash, hclose, -⟩ := plain_of_not_mem_nameSigns (hplain c List.mem_cons_self)
  have hkeep : keep known (name.reverse ++ [c]) (a.value.reverse ++ []) = known ++ [a.read] := by
    have hany : known.any (·.name == nameOf a.name) = false := by
      rw [List.any_eq_false]
      exact fun k hk => by simpa [WrittenAttribute.read] using hnew k hk
    rw [keep, List.reverse_append, List.reverse_reverse, List.append_nil, List.reverse_reverse,
      List.reverse_singleton, List.singleton_append, ← hname]
    simp only [hany, Bool.false_eq_true, if_false]
    rfl
  have hstart : tagRest .between known (c :: (name ++ '=' :: '"' :: (a.value ++ '"' :: rest))) =
      tagRest (.name [c]) known (name ++ '=' :: '"' :: (a.value ++ '"' :: rest)) := by
    rw [tagRest]
    simp [hclose, TagState.start, hblank, hslash]
  have htext : a.text ++ rest = ' ' :: c :: (name ++ '=' :: '"' :: (a.value ++ '"' :: rest)) := by
    simp [WrittenAttribute.text, hname]
  have hspace : ∀ page, tagRest .between known (' ' :: page) = tagRest .between known page :=
    fun page => rfl
  have hvalue : ∀ page, tagRest (.beforeValue (name.reverse ++ [c])) known ('"' :: page) =
      tagRest (.quoted '"' (name.reverse ++ [c]) []) known page := fun page => rfl
  rw [htext, hspace, hstart, tagRest_name fun d hd => hplain d (List.mem_cons_of_mem _ hd), hvalue,
    tagRest_quoted ha.value_plain, hkeep]

/-- Written attributes are all read, if no name comes twice. -/
theorem tagRest_attributes {as : List WrittenAttribute} (has : ∀ a ∈ as, a.IsPlain)
    {known : List Attribute}
    (hnames : ((known ++ as.map WrittenAttribute.read).map Attribute.name).Nodup)
    (rest : List Char) :
    tagRest .between known (as.flatMap WrittenAttribute.text ++ rest) =
      tagRest .between (known ++ as.map WrittenAttribute.read) rest := by
  induction as generalizing known with
  | nil => rw [List.map_nil, List.append_nil]; rfl
  | cons a as ih =>
    have hsplit : known ++ (a :: as).map WrittenAttribute.read =
        (known ++ [a.read]) ++ as.map WrittenAttribute.read := by simp
    have hnew : ∀ k ∈ known, k.name ≠ a.read.name := by
      intro k hk he
      rw [List.map_append, List.nodup_append] at hnames
      exact hnames.2.2 k.name (List.mem_map_of_mem hk) a.read.name (by simp) he
    rw [List.flatMap_cons, List.append_assoc, tagRest_attribute (has a List.mem_cons_self) hnew,
      hsplit]
    rw [hsplit] at hnames
    exact ih (fun b hb => has b (List.mem_cons_of_mem _ hb)) hnames

/-- A name that can stand at the beginning of a tag. -/
structure IsTagName (name : List Char) : Prop where
  start : ∃ c rest, name = c :: rest ∧ isTagStart c = true
  plain : ∀ c ∈ name, endsName c = false

theorem IsTagName.ne_nil {name : List Char} (h : IsTagName name) : name ≠ [] := by
  obtain ⟨c, rest, rfl, -⟩ := h.start
  exact List.cons_ne_nil c rest

instance (name : List Char) : Decidable (IsTagName name) :=
  decidable_of_iff ((name.head?.any isTagStart = true) ∧ ∀ c ∈ name, endsName c = false) <| by
    constructor
    · rintro ⟨hstart, hplain⟩
      refine ⟨?_, hplain⟩
      cases name with
      | nil => simp at hstart
      | cons c rest => exact ⟨c, rest, rfl, by simpa using hstart⟩
    · rintro ⟨⟨c, rest, rfl, hstart⟩, hplain⟩
      exact ⟨by simpa using hstart, hplain⟩

theorem takeWhile_tagName {name : List Char} (h : IsTagName name) {d : Char}
    (hd : endsName d = true) (rest : List Char) :
    (name ++ d :: rest).takeWhile (!endsName ·) = name ∧
      (name ++ d :: rest).dropWhile (!endsName ·) = d :: rest := by
  have hall : ∀ c ∈ name, (!endsName c) = true := fun c hc => by simp [h.plain c hc]
  constructor
  · rw [List.takeWhile_append_of_pos hall, List.takeWhile_cons]
    simp [hd]
  · rw [List.dropWhile_append_of_pos hall, List.dropWhile_cons]
    simp [hd]

/-- What stands behind the attributes of a written start tag. -/
def tagEnd (selfClosing : Bool) : List Char :=
  if selfClosing then ['/', '>'] else ['>']

theorem tagRest_tagEnd (selfClosing : Bool) (known : List Attribute) (rest : List Char) :
    tagRest .between known (tagEnd selfClosing ++ rest) = (some (known, selfClosing), rest) := by
  cases selfClosing <;> rfl

/-- A written start tag. -/
structure WrittenTag where
  name : List Char
  attributes : List WrittenAttribute := []
  selfClosing : Bool := false

namespace WrittenTag

/-- The tag without the `<`. -/
def text (t : WrittenTag) : List Char :=
  t.name ++ t.attributes.flatMap WrittenAttribute.text ++ tagEnd t.selfClosing

/-- The attributes as they are read. -/
def readAttributes (t : WrittenTag) : List Attribute :=
  t.attributes.map WrittenAttribute.read

/-- A written tag whose parts end where they should. -/
structure IsPlain (t : WrittenTag) : Prop where
  name : IsTagName t.name
  attributes : ∀ a ∈ t.attributes, a.IsPlain
  names : (t.readAttributes.map Attribute.name).Nodup

end WrittenTag

theorem tag_writtenTag {t : WrittenTag} (h : t.IsPlain) (rest : List Char)
    (make : String → List Attribute → Bool → Token) :
    tag make (t.text ++ rest) =
      (some (make (nameOf t.name) t.readAttributes t.selfClosing), rest) := by
  obtain ⟨d, more, hmore, hd⟩ : ∃ d more, t.attributes.flatMap WrittenAttribute.text ++
      tagEnd t.selfClosing ++ rest = d :: more ∧ endsName d = true := by
    cases hattributes : t.attributes with
    | nil =>
      cases t.selfClosing
      · exact ⟨'>', rest, rfl, rfl⟩
      · exact ⟨'/', '>' :: rest, rfl, rfl⟩
    | cons a as => exact ⟨' ', _, rfl, rfl⟩
  have htext : t.text ++ rest = t.name ++ d :: more := by
    rw [← hmore, WrittenTag.text]
    simp only [List.append_assoc]
  have hrest : tagRest .between [] (d :: more) =
      (some (t.readAttributes, t.selfClosing), rest) := by
    rw [← hmore, List.append_assoc, tagRest_attributes h.attributes h.names, List.nil_append]
    exact tagRest_tagEnd ..
  obtain ⟨htake, hdrop⟩ := takeWhile_tagName h.name hd more
  rw [tag, htext, htake, hdrop, hrest]

/-- A written start tag is read as one. -/
theorem next_opening {foreign : Bool} {t : WrittenTag} (h : t.IsPlain) (rest : List Char) :
    next (.markup foreign) '<' (t.text ++ rest) =
      (some (.opening (nameOf t.name) t.readAttributes t.selfClosing), rest) := by
  obtain ⟨c, name, hname, hc⟩ := h.name.start
  obtain ⟨more, hmore⟩ : ∃ more, t.text ++ rest = c :: more :=
    ⟨_, by rw [WrittenTag.text, hname]; rfl⟩
  have htag := tag_writtenTag h rest .opening
  rw [hmore] at htag ⊢
  have hne : c ≠ '/' ∧ c ≠ '!' ∧ c ≠ '?' := by
    refine ⟨?_, ?_, ?_⟩ <;> rintro rfl <;> exact absurd hc (by decide)
  have hopens : opensMarkup (c :: more) = true := by
    unfold opensMarkup
    split
    · next h => exact absurd (List.cons.inj h).1 hne.1
    · next h => rw [← (List.cons.inj h).1, hc]; rfl
    · next h => simp at h
  have hmarkup : markup foreign (c :: more) = tag opening (c :: more) := by
    unfold markup
    split
    · next h => exact absurd (List.cons.inj h).1 hne.1
    · next h => exact absurd (List.cons.inj h).1 hne.1
    · next h => exact absurd (List.cons.inj h).1 hne.2.1
    · next h => exact absurd (List.cons.inj h).1 hne.2.2
    · rfl
  simp only [next, hopens, beq_self_eq_true, Bool.and_self, if_true, hmarkup, htag]

/-- A written end tag. -/
def closingText (name : List Char) : List Char :=
  '/' :: name ++ ['>']

theorem tag_closing {name : List Char} (h : IsTagName name) (rest : List Char) :
    tag (fun name _ _ => closing name) (name ++ '>' :: rest) =
      (some (.closing (nameOf name)), rest) := by
  have htag := tag_writtenTag (t := ⟨name, [], false⟩) ⟨h, by simp, List.nodup_nil⟩ rest
    fun name _ _ => closing name
  rw [← htag]
  simp [WrittenTag.text, tagEnd]

/-- A written end tag is read as one. -/
theorem next_closing {foreign : Bool} {name : List Char} (h : IsTagName name) (rest : List Char) :
    next (.markup foreign) '<' (closingText name ++ rest) =
      (some (.closing (nameOf name)), rest) := by
  obtain ⟨c, more, hname, hc⟩ := h.start
  have htag := tag_closing h rest
  have htext : closingText name ++ rest = '/' :: c :: (more ++ '>' :: rest) := by
    simp [closingText, hname]
  have hne : c ≠ '>' := by
    rintro rfl
    exact absurd hc (by decide)
  have hmarkup : markup foreign ('/' :: c :: (more ++ '>' :: rest)) =
      tag (fun name _ _ => closing name) (c :: (more ++ '>' :: rest)) := by
    unfold markup
    split
    · next h => exact absurd (List.cons.inj (List.cons.inj h).2).1 hne
    · next h =>
      obtain ⟨rfl, rfl⟩ := List.cons.inj (List.cons.inj h).2
      rw [if_pos hc]
    · next h => exact absurd (List.cons.inj h).1 (by decide)
    · next h => exact absurd (List.cons.inj h).1 (by decide)
    · next _ h _ _ => exact absurd rfl (h c _)
  rw [hname, List.cons_append] at htag
  rw [htext]
  simp [next, opensMarkup, hmarkup, htag, hname]

/-! ## Text that only an end tag ends -/

theorem startsEndTag_of_ne {name : List Char} {c : Char} (hc : c ≠ '<') (rest : List Char) :
    startsEndTag name (c :: rest) = false := by
  unfold startsEndTag
  split
  · next h => exact absurd (List.cons.inj h).1 hc
  · rfl

theorem startsEndTag_closing {name : List Char} (hlow : name.map Char.toLower = name)
    (rest : List Char) : startsEndTag name ('<' :: (closingText name ++ rest)) = true := by
  have htext : closingText name ++ rest = '/' :: (name ++ '>' :: rest) := by simp [closingText]
  rw [htext]
  simp only [startsEndTag, List.take_left, List.drop_left, hlow, BEq.rfl, Bool.true_and]
  rfl

theorem plainRun_append {name run : List Char} (hrun : '<' ∉ run)
    (hlow : name.map Char.toLower = name) (rest : List Char) :
    plainRun name (run ++ '<' :: (closingText name ++ rest)) =
      (run, '<' :: (closingText name ++ rest)) := by
  induction run with
  | nil => rw [List.nil_append, plainRun, if_pos (startsEndTag_closing hlow rest)]
  | cons c run ih =>
    obtain ⟨hc, hrun⟩ := not_or.1 fun h => hrun (List.mem_cons.2 h)
    rw [List.cons_append, plainRun, if_neg (by simp [startsEndTag_of_ne (Ne.symm hc)]), ih hrun]

theorem upToEndTag_run {name : List Char} {c : Char} {run : List Char} (hrun : '<' ∉ c :: run)
    (hlow : name.map Char.toLower = name) (make : List Char → Token) (rest : List Char) :
    upToEndTag name make (c :: (run ++ '<' :: (closingText name ++ rest))) =
      (some (make (c :: run)), '<' :: (closingText name ++ rest)) := by
  rw [upToEndTag, ← List.cons_append, plainRun_append hrun hlow]

theorem upToEndTag_closing {name : List Char} (h : IsTagName name)
    (hlow : name.map Char.toLower = name) (make : List Char → Token) (rest : List Char) :
    upToEndTag name make ('<' :: (closingText name ++ rest)) =
      (some (.closing (nameOf name)), rest) := by
  have hrun : plainRun name ('<' :: (closingText name ++ rest)) =
      ([], '<' :: (closingText name ++ rest)) := plainRun_append List.not_mem_nil hlow rest
  rw [upToEndTag, hrun]
  have hdrop : ('<' :: (closingText name ++ rest)).drop 2 = name ++ '>' :: rest := by
    simp [closingText]
  dsimp only
  rw [hdrop]
  exact tag_closing h rest

end Token
end Html
end DocHighlighter
