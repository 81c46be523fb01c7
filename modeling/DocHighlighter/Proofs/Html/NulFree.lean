/-
# Trees and tokens without U+0000

No text and no attribute's value of a parsed page has the character U+0000: where a page
spells one, reading drops it or puts U+FFFD in its place.  This file says what it means
for trees, and for the tokens that they are built from.

| piece | free of U+0000 |
|---|---|
| tree | its texts and the values of its tags (`Node.NulFree`) |
| token | the values of a start tag, the text (`Token.TextNulFree`) |

Values are replaced when a tag is read.  The text of a token is free of U+0000 except
where markup counts (`Token.textNulFree_next`); there the rules for building drop it.
-/

import DocHighlighter.Proofs.Html.Places
import DocHighlighter.Proofs.Html.StartTags
import DocHighlighter.Proofs.Html.WritesBack

namespace DocHighlighter
namespace Html

/-- No value of some attributes has a U+0000. -/
def NulFreeValues (attributes : List Attribute) : Prop :=
  ∀ a ∈ attributes, '\x00' ∉ a.value

theorem nulFreeValues_nil : NulFreeValues [] :=
  List.forall_mem_nil _

/-- No attribute's value has a U+0000. -/
def Tag.NulFree (t : Tag) : Prop :=
  NulFreeValues t.attributes

/-- No text and no attribute's value of a tree has a U+0000. -/
inductive Node.NulFree : Node → Prop
  | text {content : List Char} (h : '\x00' ∉ content) : NulFree (.text content)
  | comment (content : List Char) : NulFree (.comment content)
  | element {tag : Tag} {children : List Node} (htag : tag.NulFree)
      (hchildren : ∀ n ∈ children, n.NulFree) : NulFree (.element tag children)

namespace Node

theorem NulFree.of_element {tag : Tag} {children : List Node}
    (h : Node.NulFree (.element tag children)) : tag.NulFree ∧ ∀ n ∈ children, n.NulFree := by
  cases h with
  | element htag hchildren => exact ⟨htag, hchildren⟩

theorem NulFree.empty {tag : Tag} (htag : tag.NulFree) : Node.NulFree (.element tag []) :=
  .element htag (List.forall_mem_nil _)

mutual

theorem NulFree.of_mem_places {parent : Option Tag} {p : PagePlace} : ∀ {n : Node}, n.NulFree →
    p ∈ n.places parent → p.node.NulFree
  | .text _, _, hp => absurd hp List.not_mem_nil
  | .comment _, _, hp => absurd hp List.not_mem_nil
  | .element tag children, h, hp => by
    rcases List.mem_cons.1 hp with rfl | hp
    · exact h
    · exact NulFree.of_mem_placesAll h.of_element.2 hp

theorem NulFree.of_mem_placesAll {parent : Option Tag} {p : PagePlace} : ∀ {ns : List Node},
    (∀ n ∈ ns, n.NulFree) → p ∈ placesAll parent ns → p.node.NulFree
  | [], _, hp => absurd hp List.not_mem_nil
  | n :: rest, h, hp => by
    rcases List.mem_append.1 hp with hp | hp
    · exact NulFree.of_mem_places (h n List.mem_cons_self) hp
    · exact NulFree.of_mem_placesAll (fun m hm => h m (List.mem_cons_of_mem _ hm)) hp

end

mutual

theorem NulFree.not_mem_textContent : ∀ {n : Node}, n.NulFree → '\x00' ∉ n.textContent
  | .text _, .text h => h
  | .comment _, _ => List.not_mem_nil
  | .element _ _, .element _ hchildren => NulFree.not_mem_textContents hchildren

theorem NulFree.not_mem_textContents : ∀ {ns : List Node}, (∀ n ∈ ns, n.NulFree) →
    '\x00' ∉ textContents ns
  | [], _ => List.not_mem_nil
  | n :: rest, h => by
    rw [textContents, List.mem_append, not_or]
    exact ⟨NulFree.not_mem_textContent (h n List.mem_cons_self),
      NulFree.not_mem_textContents fun m hm => h m (List.mem_cons_of_mem _ hm)⟩

end

end Node

/-! ## Tokens -/

namespace Token

variable {page : List Char} {t : Token}

/-- The text of a token has no U+0000. -/
def TextNulFree : Token → Prop
  | text content => '\x00' ∉ content
  | _ => True

theorem nulFreeValues_keep {known : List Attribute} (h : NulFreeValues known)
    (name value : List Char) : NulFreeValues (keep known name value) := by
  unfold keep
  dsimp only
  split
  · exact h
  · refine List.forall_mem_append.2 ⟨h, fun a ha => ?_⟩
    rw [List.mem_singleton.1 ha]
    exact nul_not_mem_withoutNul _

/-- The attributes of a tag are kept one by one. -/
theorem nulFreeValues_tagRest {state : TagState} {known : List Attribute} {page : List Char}
    (h : NulFreeValues known) {attributes : List Attribute} {selfClosing : Bool}
    (hread : (tagRest state known page).1 = some (attributes, selfClosing)) :
    NulFreeValues attributes := by
  fun_induction tagRest state known page <;> grind [nulFreeValues_keep]

/-- No value of a start tag has a U+0000. -/
theorem nulFreeValues_of_opening {name : String} {attributes : List Attribute} {selfClosing : Bool}
    (h : (tag opening page).1 = some (opening name attributes selfClosing)) :
    NulFreeValues attributes := by
  obtain ⟨name', attributes', selfClosing', hmade, hread⟩ := exists_of_tag h
  obtain ⟨-, rfl, rfl⟩ := Token.opening.inj hmade
  exact nulFreeValues_tagRest nulFreeValues_nil hread

/-- **No text that a page is read as has a U+0000,** except where markup counts. -/
theorem textNulFree_next {reading : Reading} {c : Char} {rest : List Char}
    (hreading : ∀ foreign, reading ≠ .markup foreign)
    (h : (next reading c rest).1 = some t) : t.TextNulFree := by
  cases reading with
  | markup foreign => exact absurd rfl (hreading foreign)
  | references name =>
    obtain ⟨run, rfl⟩ | ⟨_, rfl⟩ := upToEndTag_cases h
    · exact nul_not_mem_withoutNul _
    · trivial
  | endTag name =>
    obtain ⟨run, rfl⟩ | ⟨_, rfl⟩ := upToEndTag_cases h
    · exact nul_not_mem_withoutNul _
    · trivial
  | nothing =>
    obtain rfl := Option.some.inj h
    exact nul_not_mem_withoutNul _

end Token

theorem Foreign.nulFree_tag {attributes : List Attribute} (hvalues : NulFreeValues attributes)
    (space : Space) (name : String) :
    (Foreign.tag space name attributes).NulFree := by
  unfold Foreign.tag
  split
  · intro a ha
    obtain ⟨a', ha', rfl⟩ := List.mem_map.1 ha
    exact hvalues a' ha'
  · exact hvalues

end Html
end DocHighlighter
