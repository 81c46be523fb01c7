/-
# Kinds and words among tokens

Tokens give every character of their text a kind.  Joining neighbours of one kind changes no
character's kind (`Token.kinds_merge`), so what the characters of a text get is the same for a lexer
and for an engine.

A token stands between the texts of the tokens before and behind it, so it can be said whether it is
a whole word there (`Token.IsWholeWord`), and whether a list of tokens marks just the whole words of
a set as keywords (`Token.TagsWords`).

Neighbours of one kind are joined in the end.  That joins no two whole words, as each ends where the
other would go on; so it is enough that every token by itself is what it should be
(`Token.tagsWords_merge`).
-/

import DocHighlighter.Proofs.Grammar.Lossless
import DocHighlighter.Text.CharClass

namespace DocHighlighter
namespace Token

/-! ## The kinds of the characters of a text -/

/-- The kind of each character, in order. -/
def kinds (tokens : List Token) : List Kind :=
  tokens.flatMap fun t => List.replicate t.text.toList.length t.kind

@[simp]
theorem kinds_nil : kinds [] = [] :=
  rfl

theorem kinds_cons (t : Token) (tokens : List Token) :
    kinds (t :: tokens) = List.replicate t.text.toList.length t.kind ++ kinds tokens :=
  List.flatMap_cons

theorem kinds_append (tokens more : List Token) :
    kinds (tokens ++ more) = kinds tokens ++ kinds more :=
  List.flatMap_append

/-- Every character has a kind. -/
theorem length_kinds (tokens : List Token) : (kinds tokens).length = (textOf tokens).length := by
  induction tokens with
  | nil => rfl
  | cons t tokens ih =>
    rw [kinds_cons, textOf_cons, List.length_append, List.length_append, List.length_replicate, ih]

/-- **Joining neighbours of one kind changes no character's kind.** -/
theorem kinds_merge (tokens : List Token) : kinds (merge tokens) = kinds tokens := by
  induction tokens with
  | nil => rfl
  | cons t rest ih =>
    rw [merge, kinds_cons, ← ih]
    split
    · next h => rw [h, kinds_cons, kinds_nil]
    · next u more h =>
      rw [h]
      split
      · next hkind =>
        rw [kinds_cons, kinds_cons, String.toList_append, List.length_append, ← hkind,
          ← List.replicate_append_replicate, List.append_assoc]
      · rw [kinds_cons]

/-- Tokens of one kind give it to every character of their text. -/
theorem kinds_eq_replicate {kind : Kind} {tokens : List Token}
    (h : ∀ t ∈ tokens, t.kind = kind) :
    kinds tokens = List.replicate (textOf tokens).length kind := by
  refine List.eq_replicate_iff.2 ⟨length_kinds tokens, fun k hk => ?_⟩
  obtain ⟨t, ht, hmem⟩ := List.mem_flatMap.1 hk
  rw [List.eq_of_mem_replicate hmem, h t ht]

/-! ## Whole words -/

/-- A text that stands between two others is a word, and goes on in neither of them. -/
structure IsWholeWord (before word after : List Char) : Prop where
  ne_nil : word ≠ []
  isWord : ∀ a ∈ word, Text.isWord a = true
  before : before.getLast?.any Text.isWord = false
  after : after.head?.any Text.isWord = false

/-- The keywords among some tokens are whole words of the given ones, and no other whole word of
these stands there as text. -/
def TagsWords (words : List String) (tokens : List Token) : Prop :=
  ∀ before t after, tokens = before ++ t :: after →
    (t.kind = .keyword →
      IsWholeWord (textOf before) t.text.toList (textOf after) ∧ t.text ∈ words) ∧
    (t.kind = .text → IsWholeWord (textOf before) t.text.toList (textOf after) → t.text ∉ words)

/-- A token between two texts is tagged as it should be: a keyword is a whole word of the given ones,
and text is another whole word, or one character that is no word character. -/
structure IsTagged (words : List String) (before : List Char) (t : Token) (after : List Char) :
    Prop where
  keyword : t.kind = .keyword → IsWholeWord before t.text.toList after ∧ t.text ∈ words
  text : t.kind = .text → (IsWholeWord before t.text.toList after ∧ t.text ∉ words) ∨
    ∃ a, t.text.toList = [a] ∧ Text.isWord a = false

/-- Tokens of other kinds may be anything. -/
theorem isTagged_of_ne {words : List String} {before after : List Char} {t : Token}
    (hkeyword : t.kind ≠ .keyword) (htext : t.kind ≠ .text) : IsTagged words before t after :=
  ⟨fun h => absurd h hkeyword, fun h => absurd h htext⟩

/-- Text of word characters is a whole word, and none of the given ones. -/
theorem IsTagged.of_text {words : List String} {before after : List Char} {t : Token}
    (h : IsTagged words before t after) (htext : t.kind = .text)
    (hall : ∀ a ∈ t.text.toList, Text.isWord a = true) :
    IsWholeWord before t.text.toList after ∧ t.text ∉ words := by
  refine (h.text htext).resolve_right ?_
  rintro ⟨a, ha, hno⟩
  rw [hall a (by rw [ha]; exact List.mem_singleton_self a)] at hno
  cases hno

/-- Every one of some tokens is tagged as it should be. -/
def AllTagged (words : List String) (tokens : List Token) : Prop :=
  ∀ before t after, tokens = before ++ t :: after →
    IsTagged words (textOf before) t (textOf after)

theorem AllTagged.tagsWords {words : List String} {tokens : List Token}
    (h : AllTagged words tokens) : TagsWords words tokens := fun before t after htokens =>
  ⟨(h before t after htokens).keyword,
    fun htext hword => ((h before t after htokens).of_text htext hword.isWord).2⟩

/-! ## Joining neighbours -/

/-- Behind a whole word no other one begins. -/
theorem IsWholeWord.not_append {before word next rest before' after' : List Char}
    (h : IsWholeWord before word (next ++ rest)) : ¬ IsWholeWord before' next after' := by
  intro hnext
  obtain ⟨a, more, rfl⟩ := List.exists_cons_of_ne_nil hnext.ne_nil
  have ha := hnext.isWord a List.mem_cons_self
  have hafter := h.after
  rw [List.cons_append, List.head?_cons, Option.any_some, ha] at hafter
  cases hafter

/-- A token and the neighbours behind it that are to be joined to it. -/
structure Group where
  first : Token
  more : List Token

/-- The tokens of a group. -/
def Group.tokens (g : Group) : List Token :=
  g.first :: g.more

/-- The token that a group is joined to. -/
def Group.joined (g : Group) : Token :=
  .ofChars g.first.kind (textOf g.tokens)

theorem Group.textOf_map_joined (groups : List Group) :
    textOf (groups.map joined) = textOf (groups.flatMap tokens) := by
  induction groups with
  | nil => rfl
  | cons g groups ih =>
    rw [List.map_cons, textOf_cons, List.flatMap_cons, textOf_append, ih, joined, ofChars,
      String.toList_ofList]

theorem Group.joined_singleton (t : Token) : joined ⟨t, []⟩ = t := by
  simp [joined, tokens, ofChars, textOf]

theorem Group.joined_cons (t : Token) (g : Group) :
    joined ⟨t, g.tokens⟩ = ⟨t.kind, t.text ++ g.joined.text⟩ := by
  have htext : textOf (tokens ⟨t, g.tokens⟩) = t.text.toList ++ textOf g.tokens := textOf_cons ..
  rw [joined, joined, htext, ofChars, ofChars, String.ofList_append, String.ofList_toList]

/-- **Joining neighbours** makes one token of each group of neighbours of one kind. -/
theorem exists_groups (tokens : List Token) : ∃ groups : List Group,
    tokens = groups.flatMap Group.tokens ∧ merge tokens = groups.map Group.joined ∧
      ∀ g ∈ groups, ∀ u ∈ g.more, u.kind = g.first.kind := by
  induction tokens with
  | nil => exact ⟨[], rfl, rfl, by simp⟩
  | cons t rest ih =>
    obtain ⟨groups, rfl, hmerge, hkinds⟩ := ih
    rw [merge, hmerge]
    cases groups with
    | nil => exact ⟨[⟨t, []⟩], rfl, by rw [List.map_singleton, Group.joined_singleton]; rfl, by simp⟩
    | cons g groups =>
      obtain ⟨hg, hgroups⟩ := List.forall_mem_cons.1 hkinds
      rw [List.map_cons]
      dsimp only
      split
      · next hkind =>
        refine ⟨⟨t, g.tokens⟩ :: groups, rfl, by rw [List.map_cons, Group.joined_cons],
          List.forall_mem_cons.2 ⟨fun u hu => ?_, hgroups⟩⟩
        rcases List.mem_cons.1 hu with rfl | hu
        · exact hkind.symm
        · exact (hg u hu).trans hkind.symm
      · exact ⟨⟨t, []⟩ :: g :: groups, rfl, by
          rw [List.map_cons, Group.joined_singleton, List.map_cons],
          List.forall_mem_cons.2 ⟨by simp, hkinds⟩⟩

/-- **Joining neighbours keeps the words apart:** if every token is tagged as it should be, then the
keywords that are left are whole words, and no keyword is left as text. -/
theorem tagsWords_merge {words : List String} {tokens : List Token}
    (h : AllTagged words tokens) : TagsWords words (merge tokens) := by
  intro before t after hmerge
  obtain ⟨groups, rfl, hjoined, hkinds⟩ := exists_groups tokens
  rw [hjoined] at hmerge
  obtain ⟨earlier, groups, rfl, rfl, hgroups⟩ := List.map_eq_append_iff.1 hmerge
  obtain ⟨⟨first, more⟩, later, rfl, rfl, rfl⟩ := List.map_eq_cons_iff.1 hgroups
  have hmore := hkinds ⟨first, more⟩ (by simp)
  have htext : (Group.joined ⟨first, more⟩).text.toList = textOf (first :: more) :=
    String.toList_ofList
  rw [Group.textOf_map_joined, Group.textOf_map_joined]
  rw [List.flatMap_append, List.flatMap_cons, Group.tokens, List.cons_append] at h
  have hfirst := h _ first _ rfl
  rw [textOf_append] at hfirst
  -- a whole word has no neighbour that is one
  have halone : (∀ u ∈ first :: more, ∀ b a, IsTagged words b u a → IsWholeWord b u.text.toList a) →
      more = [] := by
    intro hwhole
    cases more with
    | nil => rfl
    | cons u rest =>
      have hu := h (earlier.flatMap Group.tokens ++ [first]) u (rest ++ later.flatMap Group.tokens)
        (by simp)
      have hword := hwhole first List.mem_cons_self _ _ hfirst
      rw [textOf_cons, List.append_assoc] at hword
      exact absurd (hwhole u (by simp) _ _ hu) hword.not_append
  have hkind : ∀ u ∈ first :: more, u.kind = first.kind := List.forall_mem_cons.2 ⟨rfl, hmore⟩
  constructor
  · intro hkeyword
    obtain rfl := halone fun u hu b a hu' => (hu'.keyword ((hkind u hu).trans hkeyword)).1
    rw [Group.joined_singleton]
    exact hfirst.keyword hkeyword
  · intro hplain hword
    have hwhole : ∀ u ∈ first :: more, ∀ b a, IsTagged words b u a →
        IsWholeWord b u.text.toList a ∧ u.text ∉ words := fun u hu b a hu' =>
      hu'.of_text ((hkind u hu).trans hplain) fun x hx =>
        hword.isWord x (htext ▸ List.mem_flatMap.2 ⟨u, hu, hx⟩)
    obtain rfl := halone fun u hu b a hu' => (hwhole u hu b a hu').1
    rw [Group.joined_singleton]
    exact (hwhole first List.mem_cons_self _ _ hfirst).2

end Token
end DocHighlighter
