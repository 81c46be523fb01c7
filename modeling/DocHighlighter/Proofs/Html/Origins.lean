/-
# Where the tags of a page come from

Every element of a parsed page comes from a start tag that is read at some `<` of the page, or it is
one of the few that are opened for others (`Page.tag_origin`).  It has the attributes of that start
tag, spelled as in the space where it stands, and only the root and the body get more.
-/

import DocHighlighter.Proofs.Html.Reading
import DocHighlighter.Proofs.Html.Sound

namespace DocHighlighter
namespace Html

/-- A start tag is read from a `<` in some markup on, when more markup stands behind it. -/
def StartsIn (markup behind : List Char) (name : String) (attributes : List Attribute) : Prop :=
  ∃ rest selfClosing, '<' :: rest <:+ markup ∧
    (Token.tag .opening (rest ++ behind)).1 = some (.opening name attributes selfClosing)

/-- A tag has the name and the attributes of a start tag. -/
def Tag.ComesFrom (t : Tag) (name : String) (attributes : List Attribute) : Prop :=
  t.name = (Foreign.tag t.space name attributes).name ∧
    (Foreign.tag t.space name attributes).attributes <+: t.attributes

theorem Foreign.comesFrom_tag (space : Space) (name : String) (attributes : List Attribute) :
    (Foreign.tag space name attributes).ComesFrom name attributes := by
  have hspace : (Foreign.tag space name attributes).space = space := by
    cases space <;> rfl
  unfold Tag.ComesFrom
  rw [hspace]
  exact ⟨rfl, List.prefix_refl _⟩

/-- The tags that come from the start tags in some markup, and those that are opened for others. -/
def Stock.readIn (page : List Char) : Stock where
  tag t := t.name ∈ impliedNames ∨
    ∃ name attributes, StartsIn page [] name attributes ∧ t.ComesFrom name attributes
  start := StartsIn page []
  tag_of_start h space := .inr ⟨_, _, h, Foreign.comesFrom_tag space _ _⟩
  tag_of_implied _ hname := .inl hname
  tag_of_bare hname := .inl hname
  tag_of_more htag _ _ := htag.imp_right fun ⟨name, attributes, hstart, hname, hprefix⟩ =>
    ⟨name, attributes, hstart, hname, hprefix.trans (List.prefix_append _ _)⟩

/-- **A parsed page is built of its start tags.** -/
theorem Page.madeOf_readIn (text : List Char) :
    (Page.read text).root.MadeOf (Stock.readIn (Text.unifyNewlines text)) :=
  Page.madeOf_read fun rest _ _ selfClosing hrest hread =>
    ⟨rest, selfClosing, hrest, by rwa [List.append_nil]⟩

/-- **Every element of a parsed page** comes from a start tag that is read at some place of it, or
is opened for others. -/
theorem Page.tag_origin (text : List Char) {p : PagePlace}
    (hp : p ∈ (Page.read text).root.places none) :
    p.tag.name ∈ impliedNames ∨ ∃ name attributes,
      StartsIn (Text.unifyNewlines text) [] name attributes ∧ p.tag.ComesFrom name attributes :=
  ((Page.madeOf_readIn text).of_mem_places hp).of_element.1

/-! ## Start tags in texts side by side -/

section StartsIn

variable {markup more behind : List Char} {name : String} {attributes : List Attribute}

/-- A start tag in two texts side by side is in one of them. -/
theorem StartsIn.of_append (h : StartsIn (markup ++ more) behind name attributes) :
    StartsIn markup (more ++ behind) name attributes ∨ StartsIn more behind name attributes := by
  obtain ⟨rest, selfClosing, ⟨front, hfront⟩, hread⟩ := h
  obtain ⟨inner, rfl, hinner⟩ | ⟨inner, -, hmore⟩ := List.append_eq_append_iff.1 hfront
  · cases inner with
    | nil => exact .inr ⟨rest, selfClosing, ⟨[], hinner⟩, hread⟩
    | cons c inner =>
      obtain ⟨rfl, hrest⟩ := List.cons.inj hinner
      have hsplit : rest ++ behind = inner ++ (more ++ behind) := by
        rw [hrest, ← List.append_assoc]
        rfl
      exact .inl ⟨inner, selfClosing, ⟨front, rfl⟩, hsplit ▸ hread⟩
  · exact .inr ⟨rest, selfClosing, ⟨inner, hmore.symm⟩, hread⟩

/-- Without a `<` there is no start tag. -/
theorem not_startsIn (h : '<' ∉ markup) : ¬ StartsIn markup behind name attributes :=
  fun ⟨_, _, hrest, _⟩ => h (hrest.subset List.mem_cons_self)

/-- In a text that begins with a written tag, a start tag is that one or behind it. -/
theorem StartsIn.of_written {t : Token.WrittenTag} (ht : t.IsPlain) (hbracket : '<' ∉ t.text)
    (h : StartsIn ('<' :: (t.text ++ more)) behind name attributes) :
    (name = Token.nameOf t.name ∧ attributes = t.readAttributes) ∨
      StartsIn more behind name attributes := by
  obtain ⟨rest, selfClosing, hrest, hread⟩ := h
  rcases List.suffix_cons_iff.1 hrest with hhere | hlater
  · obtain ⟨-, rfl⟩ := List.cons.inj hhere
    rw [List.append_assoc, Token.tag_writtenTag ht] at hread
    obtain ⟨hname, hattributes, -⟩ := Token.opening.inj (Option.some.inj hread)
    exact .inl ⟨hname.symm, hattributes.symm⟩
  · have hstarts : StartsIn (t.text ++ more) behind name attributes :=
      ⟨rest, selfClosing, hlater, hread⟩
    exact .inr (hstarts.of_append.resolve_left (not_startsIn hbracket))

end StartsIn

end Html
end DocHighlighter
