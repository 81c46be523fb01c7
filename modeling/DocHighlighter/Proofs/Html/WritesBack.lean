/-
# What was read writes itself

Nodes that some text writes also write themselves: their markup is again a text that
writes them (`Written.markup`).  So a page that is read, written and read again is
the page that it was.

Names come out in lower case and values without U+0000, and stay so: `lowered` does
nothing the second time.  In drawings some names get capitals, which the next reading
takes away and puts back (`capitalised_toList`).
-/

import DocHighlighter.Html.Markup
import DocHighlighter.Proofs.Html.ReadsBack

namespace DocHighlighter
namespace Html

open Token (WrittenTag WrittenAttribute closingText nameOf withoutNul)

/-! ## Names -/

theorem isLower_iff {c : Char} :
    c.isLower = true ↔ 97 ≤ c.val.toNat ∧ c.val.toNat ≤ 122 := by
  show (decide (c.val ≥ 'a'.val) && decide (c.val ≤ 'z'.val)) = true ↔ _
  have ha : 'a'.val.toNat = 97 := rfl
  have hz : 'z'.val.toNat = 122 := rfl
  rw [Bool.and_eq_true, decide_eq_true_eq, decide_eq_true_eq, ge_iff_le, UInt32.le_iff_toNat_le,
    UInt32.le_iff_toNat_le, ha, hz]

theorem isLower_toLower_of_ne {c : Char} (h : c.toLower ≠ c) : c.toLower.isLower = true := by
  by_cases hc : c.val ≥ 'A'.val ∧ c.val ≤ 'Z'.val
  · have hval : c.toLower.val = c.val + ('a'.val - 'A'.val) := congrArg Char.val (dif_pos hc)
    obtain ⟨hA, hZ⟩ := hc
    simp only [ge_iff_le, UInt32.le_iff_toNat_le] at hA hZ
    rw [isLower_iff, hval, UInt32.toNat_add]
    have hA' : 'A'.val.toNat = 65 := rfl
    have hZ' : 'Z'.val.toNat = 90 := rfl
    have hshift : ('a'.val - 'A'.val).toNat = 32 := rfl
    omega
  · have hsame : c.toLower = c := dif_neg hc
    exact absurd hsame h

theorem toLower_of_isLower {c : Char} (h : c.isLower = true) : c.toLower = c := by
  have hc : ¬ (c.val ≥ 'A'.val ∧ c.val ≤ 'Z'.val) := by
    rintro ⟨-, hZ⟩
    obtain ⟨ha, -⟩ := isLower_iff.1 h
    rw [UInt32.le_iff_toNat_le] at hZ
    have hZ' : 'Z'.val.toNat = 90 := rfl
    omega
  exact dif_neg hc

/-- How a letter of a name is read. -/
def lowered (c : Char) : Char :=
  if c.toLower == '\x00' then Reference.replacement else c.toLower

theorem toList_nameOf (letters : List Char) : (nameOf letters).toList = letters.map lowered := by
  simp [nameOf, withoutNul, lowered, Function.comp_def]

/-- A sign that is no letter is read as itself, and nothing else as that sign. -/
theorem eq_of_lowered_eq {c d : Char} (h : lowered c = d) (hlower : d.isLower = false)
    (hd : d ≠ Reference.replacement) : c = d := by
  unfold lowered at h
  split at h
  · exact absurd h.symm hd
  · by_contra hne
    have hmoved : c.toLower ≠ c := fun he => hne (he.symm.trans h)
    rw [← h, isLower_toLower_of_ne hmoved] at hlower
    exact absurd hlower (by decide)

theorem lowered_lowered (c : Char) : lowered (lowered c) = lowered c := by
  have hkept : ∀ d : Char, d.toLower = d → d ≠ '\x00' → lowered d = d := by
    intro d hd hnul
    simp [lowered, hd, hnul]
  by_cases hnul : c.toLower = '\x00'
  · have hc : lowered c = Reference.replacement := by simp [lowered, hnul]
    rw [hc]
    decide
  · have hc : lowered c = c.toLower := by simp [lowered, hnul]
    rw [hc]
    refine hkept _ ?_ hnul
    by_cases hmoved : c.toLower = c
    · rw [hmoved, hmoved]
    · exact toLower_of_isLower (isLower_toLower_of_ne hmoved)

/-- A name that is read stays as it is. -/
theorem nameOf_nameOf (letters : List Char) : nameOf (nameOf letters).toList = nameOf letters := by
  refine String.toList_inj.1 ?_
  rw [toList_nameOf, toList_nameOf, List.map_map]
  exact List.map_congr_left fun c _ => lowered_lowered c

theorem not_lower_of_mem_nameSigns : ∀ d ∈ Token.nameSigns,
    d.isLower = false ∧ d ≠ Reference.replacement := by
  decide

/-- A letter is read as a sign only if it is that sign. -/
theorem eq_lowered_of_mem {c : Char} (h : lowered c ∈ Token.nameSigns) : c = lowered c := by
  obtain ⟨hlower, hne⟩ := not_lower_of_mem_nameSigns _ h
  exact eq_of_lowered_eq rfl hlower hne

theorem mem_nameSigns_of_endsName {c : Char} (h : Token.endsName c = true) :
    c ∈ Token.nameSigns := by
  by_contra hno
  obtain ⟨hblank, hslash, hclose, -⟩ := Token.plain_of_not_mem_nameSigns hno
  simp [Token.endsName, hblank, hslash, hclose] at h

theorem isTagName_nameOf {letters : List Char} (h : Token.IsTagName letters) :
    Token.IsTagName (nameOf letters).toList := by
  obtain ⟨c, rest, rfl, hc⟩ := h.start
  rw [toList_nameOf]
  refine ⟨⟨lowered c, rest.map lowered, rfl, ?_⟩, ?_⟩
  · have halpha : c.isAlpha = true := hc
    have hlower : c.toLower.isAlpha = true := by
      by_cases hmoved : c.toLower = c
      · rw [hmoved, halpha]
      · show (c.toLower.isUpper || c.toLower.isLower) = true
        rw [isLower_toLower_of_ne hmoved, Bool.or_true]
    have hnul : c.toLower ≠ '\x00' := by
      intro he
      rw [he] at hlower
      exact absurd hlower (by decide)
    have hlowered : lowered c = c.toLower := by simp [lowered, hnul]
    rw [hlowered]
    exact hlower
  · intro d hd
    obtain ⟨a, ha, rfl⟩ := List.mem_map.1 hd
    by_contra hends
    rw [Bool.not_eq_false] at hends
    rw [← eq_lowered_of_mem (mem_nameSigns_of_endsName hends), h.plain a ha] at hends
    exact absurd hends (by decide)

/-! ## Tags -/

theorem withoutNul_of_not_mem {text : List Char} (h : '\x00' ∉ text) : withoutNul text = text := by
  refine (List.map_congr_left fun c hc => ?_).trans (List.map_id text)
  have hne : c ≠ '\x00' := by
    rintro rfl
    exact h hc
  simp [hne]

theorem nul_not_mem_withoutNul (text : List Char) : '\x00' ∉ withoutNul text := by
  intro h
  obtain ⟨c, -, hc⟩ := List.mem_map.1 h
  split at hc
  · exact absurd hc (by decide)
  · next hne => exact hne (beq_iff_eq.2 hc)

/-- An attribute as its markup writes it. -/
def Attribute.written (a : Attribute) : WrittenAttribute :=
  ⟨a.name.toList, a.value.flatMap valueChar⟩

/-- A tag as its markup writes it. -/
def Tag.written (t : Tag) : WrittenTag :=
  ⟨t.name.toList, t.attributes.map Attribute.written, false⟩

theorem Tag.opening_eq (t : Tag) : t.opening = '<' :: t.written.text := by
  have hattributes : ∀ as : List Attribute, as.flatMap Attribute.markup =
      (as.map Attribute.written).flatMap WrittenAttribute.text := by
    intro as
    rw [List.flatMap_map]
    rfl
  rw [Tag.opening, hattributes]
  rfl

/-- An attribute that reads back from its own markup. -/
structure Attribute.IsKept (a : Attribute) : Prop where
  plain : a.written.IsPlain
  name : nameOf a.name.toList = a.name
  value : '\x00' ∉ a.value

theorem Attribute.read_written (a : Attribute) (hvalue : '\x00' ∉ a.value) :
    a.written.read = ⟨nameOf a.name.toList, a.value⟩ := by
  have hdecode := escape_valueChar.decode_flatMap true a.value
  simp only [WrittenAttribute.read, Attribute.written, hdecode, withoutNul_of_not_mem hvalue]

theorem Token.WrittenAttribute.IsPlain.isKept_read {a : WrittenAttribute} (h : a.IsPlain) :
    a.read.IsKept := by
  refine ⟨⟨?_, ?_, ?_⟩, nameOf_nameOf a.name, nul_not_mem_withoutNul _⟩
  · have hname : a.read.written.name = a.name.map lowered := toList_nameOf a.name
    rw [hname]
    simpa using h.name_ne_nil
  · intro c hc hsign
    have hname : a.read.written.name = a.name.map lowered := toList_nameOf a.name
    rw [hname] at hc
    obtain ⟨d, hd, rfl⟩ := List.mem_map.1 hc
    rw [← eq_lowered_of_mem hsign] at hsign
    exact h.name_plain d hd hsign
  · intro hquote
    obtain ⟨c, -, hc⟩ := List.mem_flatMap.1 hquote
    exact quote_not_mem_valueChar c hc

/-- A tag whose parts read back from its own markup; in drawings, up to capitals. -/
theorem Tag.isPlain_written {tag : Tag} (hname : Token.IsTagName tag.name.toList)
    (hattributes : ∀ a ∈ tag.attributes, a.written.IsPlain)
    (hnames : (tag.written.readAttributes.map Attribute.name).Nodup) : tag.written.IsPlain := by
  refine ⟨hname, fun w hw => ?_, hnames⟩
  obtain ⟨a, ha, rfl⟩ := List.mem_map.1 hw
  exact hattributes a ha

/-- A tag that was read reads back from its own markup. -/
theorem written_readTag {t : WrittenTag} (ht : t.IsPlain) (space : Space) :
    (⟨nameOf t.name, t.readAttributes, space⟩ : Tag).written.IsPlain ∧
      nameOf (⟨nameOf t.name, t.readAttributes, space⟩ : Tag).written.name = nameOf t.name ∧
      (⟨nameOf t.name, t.readAttributes, space⟩ : Tag).written.readAttributes =
        t.readAttributes := by
  have hkept : ∀ a ∈ t.readAttributes, a.IsKept := by
    intro a ha
    obtain ⟨w, hw, rfl⟩ := List.mem_map.1 ha
    exact (ht.attributes w hw).isKept_read
  have hread : (⟨nameOf t.name, t.readAttributes, space⟩ : Tag).written.readAttributes =
      t.readAttributes := by
    rw [WrittenTag.readAttributes, Tag.written, List.map_map]
    refine (List.map_congr_left fun a ha => ?_).trans (List.map_id _)
    rw [Function.comp_apply, Attribute.read_written a (hkept a ha).value, (hkept a ha).name]
    rfl
  refine ⟨Tag.isPlain_written (isTagName_nameOf ht.name) (fun a ha => (hkept a ha).plain) ?_,
    nameOf_nameOf t.name, hread⟩
  rw [hread]
  exact ht.names

/-! ## Capitals -/

theorem nul_not_mem_nameOf (letters : List Char) : '\x00' ∉ (nameOf letters).toList := by
  have hlist : (nameOf letters).toList = withoutNul (letters.map Char.toLower) := by
    simp [nameOf]
  rw [hlist]
  exact nul_not_mem_withoutNul _

/-- A name that has got capitals is read without them. -/
theorem nameOf_capitalised (names : List String) (letters : List Char) :
    nameOf (Foreign.capitalised names (nameOf letters)).toList = nameOf letters := by
  unfold Foreign.capitalised
  cases hfind : names.find? fun n => n.toList.map Char.toLower == (nameOf letters).toList with
  | none => exact nameOf_nameOf letters
  | some n =>
    have hlower : n.toList.map Char.toLower = (nameOf letters).toList := by
      have hsome := List.find?_some hfind
      simpa using hsome
    have hname : nameOf n.toList = String.ofList (withoutNul (n.toList.map Char.toLower)) := rfl
    rw [Option.getD_some, hname, hlower, withoutNul_of_not_mem (nul_not_mem_nameOf letters),
      String.ofList_toList]

theorem not_mem_nameSigns_attributeNames : ∀ n ∈ Foreign.attributeNames, n.toList ≠ [] ∧
    ∀ c ∈ n.toList, c ∉ Token.nameSigns := by
  decide +kernel

/-- An attribute whose name has got capitals. -/
def Attribute.capital (a : Attribute) : Attribute :=
  { a with name := Foreign.capitalised Foreign.attributeNames a.name }

theorem Attribute.IsKept.plain_capital {a : Attribute} (h : a.IsKept) :
    a.capital.written.IsPlain := by
  have hname : a.capital.name.toList ≠ [] ∧ ∀ c ∈ a.capital.name.toList, c ∉ Token.nameSigns := by
    unfold Attribute.capital Foreign.capitalised
    cases hfind : Foreign.attributeNames.find? fun n =>
        n.toList.map Char.toLower == a.name.toList with
    | none => exact ⟨h.plain.name_ne_nil, h.plain.name_plain⟩
    | some n => exact not_mem_nameSigns_attributeNames n (List.mem_of_find?_eq_some hfind)
  exact ⟨hname.1, hname.2, h.plain.value_plain⟩

/-- A tag of a drawing reads back from its own markup. -/
theorem written_drawingTag {t : WrittenTag} (ht : t.IsPlain) {name : String}
    (hname : nameOf t.name = name)
    (hcapital : Foreign.capitalised Foreign.elementNames name = name) :
    (Foreign.tag .drawing name t.readAttributes).written.IsPlain ∧
      nameOf (Foreign.tag .drawing name t.readAttributes).written.name = name ∧
      (Foreign.tag .drawing name t.readAttributes).written.readAttributes =
        t.readAttributes := by
  have htag : Foreign.tag .drawing name t.readAttributes =
      ⟨name, t.readAttributes.map Attribute.capital, .drawing⟩ := by
    rw [← hcapital]
    simp only [Foreign.tag, hcapital]
    rfl
  have hkept : ∀ a ∈ t.readAttributes, a.IsKept ∧ nameOf a.capital.name.toList = a.name := by
    intro a ha
    obtain ⟨w, hw, rfl⟩ := List.mem_map.1 ha
    exact ⟨(ht.attributes w hw).isKept_read, nameOf_capitalised _ w.name⟩
  have hread : (⟨name, t.readAttributes.map Attribute.capital, .drawing⟩ :
      Tag).written.readAttributes = t.readAttributes := by
    rw [WrittenTag.readAttributes, Tag.written, List.map_map, List.map_map]
    refine (List.map_congr_left fun a ha => ?_).trans (List.map_id _)
    obtain ⟨hkeep, hlower⟩ := hkept a ha
    rw [Function.comp_apply, Function.comp_apply, Attribute.read_written a.capital hkeep.value,
      hlower]
    rfl
  rw [htag]
  refine ⟨Tag.isPlain_written ?_ ?_ ?_, ?_, hread⟩
  · rw [← hname]
    exact isTagName_nameOf ht.name
  · intro a ha
    obtain ⟨w, hw, rfl⟩ := List.mem_map.1 ha
    exact (hkept w hw).1.plain_capital
  · rw [hread]
    exact ht.names
  · rw [← hname]
    exact nameOf_nameOf t.name

/-! ## Trees -/

theorem markupIn_element (tag : Tag) (children : List Node) (hvoid : tag.isOneOf voidNames = false)
    (hplain : tag.holdsPlainText = false) :
    (Node.element tag children).markupIn false =
      elementText tag.written (Node.markupsIn false children) := by
  rw [Node.markupIn, hplain, Tag.closing, hvoid, Tag.opening_eq]
  simp [elementText, closingText, Tag.written]

theorem markupIn_page {name : String} (attributes : List Attribute) (children : List Node)
    (hvoid : voidNames.contains name = false) (hplain : plainTextNames.contains name = false) :
    (Node.element ⟨name, attributes, .page⟩ children).markupIn false =
      elementText (⟨name, attributes, .page⟩ : Tag).written (Node.markupsIn false children) :=
  markupIn_element _ _ hvoid hplain

/-- Shapes that some text writes write themselves. -/
theorem WrittenShapes.markup {text : List Char} {ns : List Node} (h : WrittenShapes text ns) :
    WrittenShapes (Node.markupsIn false ns) ns := by
  have hshape : ∀ {t : WrittenTag} {ms : List Node}, t.IsPlain → nameOf t.name = "path" →
      WrittenShapes (Node.markupsIn false ms) ms →
      WrittenShapes (Node.markupsIn false
          (.element (Foreign.tag .drawing "path" t.readAttributes) [] :: ms))
        (.element (Foreign.tag .drawing "path" t.readAttributes) [] :: ms) := by
    intro t ms ht hname hms
    obtain ⟨hplain, hwritten, hattributes⟩ := written_drawingTag ht hname (by decide)
    have hclosed := WrittenShapes.closed hplain rfl hwritten hms
    rw [hattributes] at hclosed
    rw [Node.markupsIn, markupIn_element _ _ rfl rfl]
    exact hclosed
  induction h with
  | nil => exact .nil
  | selfClosing ht _ hname _ ih => exact hshape ht hname ih
  | closed ht _ hname _ ih => exact hshape ht hname ih

/-- **What was read writes itself:** nodes that some text writes are written by their own
markup. -/
theorem Written.markup {k : Bool} {text : List Char} {ns : List Node} (h : Written k text ns) :
    Written k (Node.markupsIn false ns) ns := by
  induction h with
  | nil => exact .nil
  | @text k w s rest ms _ _ hne hnul hms _ ih =>
    have hmarkup : Node.markupIn false (.text s) = s.flatMap textChar := rfl
    rw [Node.markupsIn, hmarkup]
    exact .text (escape_textChar.bracket_not_mem s) (escape_textChar.decode_flatMap false s) hne
      hnul hms ih
  | @plain k t inner rest ns ms ht _ hname _ _ ihinner ihrest =>
    obtain ⟨hplain, hwritten, hattributes⟩ := written_readTag ht .page
    have helement := Written.plain hplain rfl (by rw [hwritten]; exact hname) ihinner ihrest
    rw [hwritten, hattributes] at helement
    rw [Node.markupsIn, markupIn_page _ _ hname.hasEndTag hname.holdsMarkup]
    exact helement
  | @pre k t inner rest ns ms ht _ hname hns _ _ ihinner ihrest =>
    obtain ⟨hplain, hwritten, hattributes⟩ := written_readTag ht .page
    rw [hname] at hplain hwritten hattributes
    have helement := Written.pre hplain rfl hwritten hns ihinner ihrest
    rw [hattributes] at helement
    rw [Node.markupsIn, markupIn_element _ _ rfl rfl]
    exact helement
  | @code t inner rest ns ms ht _ hname _ _ ihinner ihrest =>
    obtain ⟨hplain, hwritten, hattributes⟩ := written_readTag ht .page
    rw [hname] at hplain hwritten hattributes
    have helement := Written.code hplain rfl hwritten ihinner ihrest
    rw [hattributes] at helement
    rw [Node.markupsIn, markupIn_element _ _ rfl rfl]
    exact helement
  | @drawing k t inner rest ns ms ht _ hname hinner _ ihrest =>
    obtain ⟨hplain, hwritten, hattributes⟩ := written_drawingTag ht hname (by decide)
    have helement := Written.drawing hplain rfl hwritten hinner.markup ihrest
    rw [hattributes] at helement
    rw [Node.markupsIn, markupIn_element _ _ rfl rfl]
    exact helement

end Html
end DocHighlighter
