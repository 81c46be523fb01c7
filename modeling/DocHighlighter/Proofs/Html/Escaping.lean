/-
# What is escaped reads back

A text is written character by character, and each written form spells its
character whatever stands behind it (`Reference.Spells`): the character itself if
it is no `&`, else a reference with its semicolon.  So decoding what was written
gives the text (`decode_flatMap`), for all four ways to write one (`Escape`).

What is written holds no `<`, so markup ends it, and no character that pages
treat specially unless the text has it.
-/

import DocHighlighter.Html.Markup
import DocHighlighter.Html.Reference

namespace DocHighlighter

/-- What is said about the characters of a text is decided by going through the text, and not
through all the characters there are. -/
instance (priority := 2000) Text.decidableForallMem (p : Char → Prop) [DecidablePred p]
    (text : List Char) : Decidable (∀ c ∈ text, p c) :=
  List.decidableBAll p text

namespace Html
namespace Reference

/-- A written form stands for a character, whatever comes behind it. -/
def Spells (inValue : Bool) (written : List Char) (c : Char) : Prop :=
  ∀ rest, decode inValue (written ++ rest) = c :: decode inValue rest

variable {inValue : Bool}

theorem decode_nil : decode inValue [] = [] := by
  rw [decode]

theorem decode_reference {text rest : List Char} {c : Char}
    (h : read? inValue text = some (c, rest)) :
    decode inValue ('&' :: text) = c :: decode inValue rest := by
  rw [decode]
  split
  · next c' rest' h' =>
    obtain ⟨rfl, rfl⟩ := Prod.mk.inj (Option.some.inj (h'.symm.trans h))
    rfl
  · next h' =>
    rw [h'] at h
    simp at h

theorem spells_self {c : Char} (hc : c ≠ '&') : Spells inValue [c] c := by
  intro rest
  rw [List.singleton_append, decode]
  exact hc

theorem spells_amp : Spells inValue ['&', 'a', 'm', 'p', ';'] '&' :=
  fun _ => decode_reference rfl

theorem spells_lt : Spells inValue ['&', 'l', 't', ';'] '<' :=
  fun _ => decode_reference rfl

theorem spells_gt : Spells inValue ['&', 'g', 't', ';'] '>' :=
  fun _ => decode_reference rfl

theorem spells_quot : Spells inValue ['&', 'q', 'u', 'o', 't', ';'] '"' :=
  fun _ => decode_reference rfl

theorem spells_nbsp : Spells inValue ['&', 'n', 'b', 's', 'p', ';'] '\u00a0' :=
  fun _ => decode_reference rfl

theorem spells_apostrophe : Spells inValue ['&', '#', 'x', '2', '7', ';'] '\'' :=
  fun _ => decode_reference rfl

/-- What spells the characters of a text reads back as that text. -/
theorem decode_flatMap {f : Char → List Char} {text : List Char}
    (h : ∀ c ∈ text, Spells inValue (f c) c) (rest : List Char) :
    decode inValue (text.flatMap f ++ rest) = text ++ decode inValue rest := by
  induction text with
  | nil => rfl
  | cons c more ih =>
    rw [List.flatMap_cons, List.append_assoc, h c List.mem_cons_self,
      ih fun d hd => h d (List.mem_cons_of_mem _ hd)]
    rfl

/-- A text without `&` is what it says. -/
theorem decode_of_not_mem {text : List Char} (h : '&' ∉ text) : decode inValue text = text := by
  have hspells : ∀ c ∈ text, Spells inValue [c] c := by
    intro c hc
    refine spells_self ?_
    rintro rfl
    exact h hc
  have hd := decode_flatMap hspells []
  rwa [List.append_nil, List.flatMap_singleton', decode_nil, List.append_nil] at hd

end Reference

/-- The characters that references are written with. -/
def referenceLetters : List Char :=
  ['&', ';', '#', 'a', 'b', 'g', 'l', 'm', 'n', 'o', 'p', 'q', 's', 't', 'u', 'x', '2', '7']

/-- A way to write the characters of a text so that they read back, and none of them is markup. -/
structure Escape (f : Char → List Char) : Prop where
  spells : ∀ inValue c, Reference.Spells inValue (f c) c
  noBracket : ∀ c, '<' ∉ f c
  /-- The written form is made of the character itself or of the letters of references. -/
  letters : ∀ c, ∀ d ∈ f c, d = c ∨ d ∈ referenceLetters

theorem escape_escapeChar : Escape Text.escapeChar := by
  refine ⟨fun inValue c => ?_, fun c => ?_, fun c => ?_⟩ <;> unfold Text.escapeChar <;> split
  · exact Reference.spells_amp
  · exact Reference.spells_lt
  · exact Reference.spells_gt
  · next hamp _ _ => exact Reference.spells_self hamp
  · decide
  · decide
  · decide
  · next hlt _ => exact fun h => hlt (List.mem_singleton.1 h).symm
  · decide
  · decide
  · decide
  · exact fun d hd => .inl (List.mem_singleton.1 hd)

theorem escape_textChar : Escape textChar := by
  refine ⟨fun inValue c => ?_, fun c => ?_, fun c => ?_⟩ <;> unfold textChar <;> split
  · next h => exact beq_iff_eq.1 h ▸ Reference.spells_nbsp
  · exact escape_escapeChar.spells inValue c
  · decide
  · exact escape_escapeChar.noBracket c
  · exact fun d hd => .inr ((by decide : _ ⊆ referenceLetters) hd)
  · exact escape_escapeChar.letters c

theorem escape_valueChar : Escape valueChar := by
  refine ⟨fun inValue c => ?_, fun c => ?_, fun c => ?_⟩ <;> unfold valueChar <;> split
  · next h => exact beq_iff_eq.1 h ▸ Reference.spells_quot
  · exact escape_textChar.spells inValue c
  · decide
  · exact escape_textChar.noBracket c
  · exact fun d hd => .inr ((by decide : _ ⊆ referenceLetters) hd)
  · exact escape_textChar.letters c

theorem escape_escapeQuotedChar : Escape Text.escapeQuotedChar := by
  refine ⟨fun inValue c => ?_, fun c => ?_, fun c => ?_⟩ <;> unfold Text.escapeQuotedChar <;> split
  · exact Reference.spells_quot
  · exact Reference.spells_apostrophe
  · exact escape_escapeChar.spells inValue c
  · decide
  · decide
  · exact escape_escapeChar.noBracket c
  · decide
  · decide
  · exact escape_escapeChar.letters c

/-- Values are written without a double quote. -/
theorem quote_not_mem_valueChar (c : Char) : '"' ∉ valueChar c := by
  unfold valueChar
  split
  · decide
  · next h =>
    intro hmem
    rcases escape_textChar.letters c _ hmem with he | he
    · exact h (beq_iff_eq.2 he.symm)
    · exact absurd he (by decide)

theorem quote_not_mem_escapeQuotedChar (c : Char) : '"' ∉ Text.escapeQuotedChar c := by
  unfold Text.escapeQuotedChar
  split
  · decide
  · decide
  · next h _ =>
    intro hmem
    rcases escape_escapeChar.letters c _ hmem with he | he
    · exact h he.symm
    · exact absurd he (by decide)

namespace Escape

variable {f : Char → List Char}

/-- What is written reads back. -/
theorem decode_flatMap (h : Escape f) (inValue : Bool) (text : List Char) :
    Reference.decode inValue (text.flatMap f) = text := by
  have hd : Reference.decode inValue (text.flatMap f ++ []) =
      text ++ Reference.decode inValue [] :=
    Reference.decode_flatMap (fun c _ => h.spells inValue c) []
  rwa [List.append_nil, Reference.decode_nil, List.append_nil] at hd

theorem bracket_not_mem (h : Escape f) (text : List Char) : '<' ∉ text.flatMap f := by
  intro hmem
  obtain ⟨c, -, hc⟩ := List.mem_flatMap.1 hmem
  exact h.noBracket c hc

/-- A character that no reference is written with is written only where the text has it. -/
theorem mem_of_mem_flatMap (h : Escape f) {text : List Char} {d : Char}
    (hd : d ∉ referenceLetters) (hmem : d ∈ text.flatMap f) : d ∈ text := by
  obtain ⟨c, hc, hdc⟩ := List.mem_flatMap.1 hmem
  rcases h.letters c d hdc with rfl | hletter
  · exact hc
  · exact absurd hletter hd

theorem flatMap_ne_nil (h : Escape f) {text : List Char} (hne : text ≠ []) :
    text.flatMap f ≠ [] := by
  intro he
  have hd := h.decode_flatMap false text
  rw [he, Reference.decode_nil] at hd
  exact hne hd.symm

end Escape

end Html
end DocHighlighter
