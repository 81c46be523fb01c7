/-
# Where the tokens of a page are read

A page is read from its beginning to its end, so each token is read at the end of what is read of
the page (`Token.next_isSuffix`).  Start tags are read only where markup counts, from a `<` on, and
what they then are depends on what comes next alone (`Token.opening_of_next`).
-/

import DocHighlighter.Html.Token
import Mathlib.Data.List.Infix

namespace DocHighlighter
namespace Html
namespace Token

variable {page : List Char} {t : Token}

/-! ## The rest of the page -/

theorem tagRest_isSuffix (state : TagState) (known : List Attribute) (text : List Char) :
    (tagRest state known text).2 <:+ text := by
  fun_induction tagRest state known text <;> grind [List.suffix_cons, List.IsSuffix.trans]

theorem commentRest_isSuffix (read text : List Char) : (commentRest read text).2 <:+ text := by
  fun_induction commentRest read text <;> grind [List.suffix_cons, List.IsSuffix.trans]

theorem textRun_isSuffix (text : List Char) : (textRun text).2 <:+ text := by
  fun_induction textRun text <;> grind [List.suffix_cons, List.IsSuffix.trans]

theorem plainRun_isSuffix (name text : List Char) : (plainRun name text).2 <:+ text := by
  fun_induction plainRun name text <;> grind [List.suffix_cons, List.IsSuffix.trans]

theorem upToSectionEnd_isSuffix (read text : List Char) :
    (upToSectionEnd read text).2 <:+ text := by
  fun_induction upToSectionEnd read text <;> grind [List.suffix_cons, List.IsSuffix.trans]

theorem upToBracket_isSuffix (text : List Char) : (upToBracket text).2 <:+ text :=
  (List.drop_suffix _ _).trans (List.dropWhile_suffix _)

theorem tag_isSuffix (make : String → List Attribute → Bool → Token) (text : List Char) :
    (tag make text).2 <:+ text := by
  have h := (tagRest_isSuffix .between [] (text.dropWhile (!endsName ·))).trans
    (List.dropWhile_suffix _)
  unfold tag
  dsimp only
  split <;> simp_all

theorem commentFrom_isSuffix (text : List Char) : (commentFrom text).2 <:+ text := by
  unfold commentFrom
  split
  · exact List.suffix_cons _ _
  · exact (List.suffix_cons _ _).trans (List.suffix_cons _ _)
  · exact commentRest_isSuffix [] _

theorem declaration_isSuffix (foreign : Bool) (text : List Char) :
    (declaration foreign text).2 <:+ text := by
  unfold declaration
  split
  · exact (commentFrom_isSuffix _).trans (List.drop_suffix _ _)
  · split
    · exact (upToBracket_isSuffix _).trans (List.drop_suffix _ _)
    · split
      · exact (upToSectionEnd_isSuffix _ _).trans (List.drop_suffix _ _)
      · exact upToBracket_isSuffix _

theorem markup_isSuffix (foreign : Bool) (text : List Char) : (markup foreign text).2 <:+ text := by
  unfold markup
  split
  · exact (List.suffix_cons _ _).trans (List.suffix_cons _ _)
  · split
    · exact (tag_isSuffix _ _).trans (List.suffix_cons _ _)
    · exact (upToBracket_isSuffix _).trans (List.suffix_cons _ _)
  · exact (declaration_isSuffix foreign _).trans (List.suffix_cons _ _)
  · exact upToBracket_isSuffix _
  · exact tag_isSuffix _ _

theorem upToEndTag_isSuffix (name : List Char) (make : List Char → Token) (text : List Char) :
    (upToEndTag name make text).2 <:+ text := by
  have h := plainRun_isSuffix name text
  unfold upToEndTag
  split
  · next rest hrun =>
    rw [hrun] at h
    exact (tag_isSuffix _ _).trans ((List.drop_suffix _ _).trans h)
  · next run rest _ hrun =>
    rw [hrun] at h
    exact h

/-- What is left of a page behind a token is its end. -/
theorem next_isSuffix (reading : Reading) (c : Char) (rest : List Char) :
    (next reading c rest).2 <:+ c :: rest := by
  cases reading with
  | markup foreign =>
    simp only [next]
    split
    · exact (markup_isSuffix foreign rest).trans (List.suffix_cons _ _)
    · exact (textRun_isSuffix rest).trans (List.suffix_cons _ _)
  | references name => exact upToEndTag_isSuffix _ _ _
  | endTag name => exact upToEndTag_isSuffix _ _ _
  | nothing => exact List.nil_suffix

/-! ## Start tags -/

/-- A tag is made of a name and of what `tagRest` reads behind it. -/
theorem exists_of_tag {make : String → List Attribute → Bool → Token}
    (h : (tag make page).1 = some t) :
    ∃ name attributes selfClosing, t = make name attributes selfClosing ∧
      (tagRest .between [] (page.dropWhile (!endsName ·))).1 = some (attributes, selfClosing) := by
  unfold tag at h
  dsimp only at h
  split at h
  · next attributes selfClosing rest hread =>
    exact ⟨_, _, _, (Option.some.inj h).symm, congrArg Prod.fst hread⟩
  · cases h

/-- The name of a start tag is all that comes next, up to a sign that ends it. -/
theorem name_of_opening {name : String} {attributes : List Attribute} {selfClosing : Bool}
    (h : (tag opening page).1 = some (opening name attributes selfClosing)) :
    name = nameOf (page.takeWhile (!endsName ·)) := by
  unfold tag at h
  dsimp only at h
  split at h
  · exact (Token.opening.inj (Option.some.inj h)).1.symm
  · cases h

/-- In an element with nothing but text the next token is a text, or the end tag. -/
theorem upToEndTag_cases {name : List Char} {make : List Char → Token}
    (h : (upToEndTag name make page).1 = some t) :
    (∃ run, t = make run) ∨ ∃ name, t = closing name := by
  unfold upToEndTag at h
  split at h
  · obtain ⟨name, -, -, rfl, -⟩ := exists_of_tag h
    exact .inr ⟨name, rfl⟩
  · exact .inl ⟨_, (Option.some.inj h).symm⟩

/-- **A start tag is read from a `<` on,** where markup counts. -/
theorem opening_of_next {reading : Reading} {c : Char} {rest : List Char} {name : String}
    {attributes : List Attribute} {selfClosing : Bool}
    (h : (next reading c rest).1 = some (opening name attributes selfClosing)) :
    c = '<' ∧ (tag opening rest).1 = some (opening name attributes selfClosing) := by
  cases reading with
  | markup foreign =>
    simp only [next] at h
    split at h
    · next hopens =>
      refine ⟨eq_of_beq (Bool.and_eq_true_iff.1 hopens).1, ?_⟩
      unfold markup at h
      split at h
      · cases h
      · split at h
        · obtain ⟨_, _, _, hmade, -⟩ := exists_of_tag h
          cases hmade
        · cases h
      · unfold declaration at h
        split_ifs at h <;> cases h
      · cases h
      · exact h
    · cases h
  | references name' =>
    obtain ⟨_, hmade⟩ | ⟨_, hmade⟩ := upToEndTag_cases h <;> cases hmade
  | endTag name' =>
    obtain ⟨_, hmade⟩ | ⟨_, hmade⟩ := upToEndTag_cases h <;> cases hmade
  | nothing => cases h

end Token
end Html
end DocHighlighter
