/-
# When the highlighting of a page ends

Highlighting goes from code to code, and stops at the first one that it cannot do.  Two things
could stop it: the lexer of a language gives no tokens for the text of a code, or the block that
is made of the tokens is not found in its own markup.  The second never happens on a page that was
read (`Highlighting.exists_read_of_highlight`), whatever the tokens are: they have their
characters from the text, and the spans around them are written so that they are read again.

So highlighting ends well exactly if each code in turn is lexed, by the engine as it is when the
turn comes (`Html.Page.fault_highlight_eq_none_iff`).
-/

import DocHighlighter.Proofs.Block.Counted
import DocHighlighter.Proofs.Block.Kept
import DocHighlighter.Proofs.Scanner.Inside

namespace DocHighlighter

open Html
open Spans (IsPlainChar)

/-- A prepared text has no character that pages treat specially, if the text has no U+0000. -/
theorem Preparation.isPlainChar_of_mem {text : List Char} (h : '\x00' ∉ text) :
    ∀ c ∈ Preparation.keepingLines.apply text, IsPlainChar c := by
  have hplain := Text.isPlainChar_unifyNewlines h
  intro c hc
  rw [keepingLines_apply, Text.endLine] at hc
  split at hc
  · exact hplain c hc
  · rcases List.mem_append.1 hc with hc | hc
    · exact hplain c hc
    · rw [List.mem_singleton.1 hc]
      simp [IsPlainChar]

namespace Highlighting

variable {isOld : Bool} {e : Engine} {h : Highlighting} {q : PagePlace}

/-- **What an engine makes of a code is read again from the markup of its block,** as texts and
spans, whatever the lexer is. -/
theorem exists_read_of_highlight {pre code : Tag} (hpre : pre.NulFree) (hcode : code.NulFree)
    {text : List Char} (htext : '\x00' ∉ text) {language spans : String}
    (hspans : e.highlight (String.ofList text) language = .ok spans) :
    ∃ ns, elementOf (markup pre code spans) "pre" =
        .ok (.element (preTag pre) [.element (codeTag code) ns]) ∧ ∀ n ∈ ns, n.IsSpan := by
  obtain ⟨l, -, tokens, htokens, rfl⟩ := Engine.exists_tokens_of_highlight hspans
  rw [String.toList_ofList] at htokens
  have hchars : ∀ c ∈ Token.textOf tokens, IsPlainChar c := fun c hc =>
    Preparation.isPlainChar_of_mem htext c (Lexer.mem_of_tokens htokens c hc)
  have hwrites := Spans.ofTokens_writes hchars
  obtain ⟨ns, hns, hplain, -⟩ := hwrites.written
  exact ⟨ns, elementOf_markup (isPlainChar_joined (isPlainChar_marked hpre))
    (isPlainChar_joined (Tag.isPlainChar_classes hcode)) hns hwrites.noReturn, hplain⟩

/-- A block as it is read from its markup: marked as highlighted, with its code in texts and
spans. -/
inductive IsNewBlock (pre code : Tag) : Node → Prop
  | intro {ns : List Node} (hns : ∀ n ∈ ns, n.IsSpan) :
      IsNewBlock pre code (.element (preTag pre) [.element (codeTag code) ns])

/-- Whether an engine makes spans of the text of a code, in the language that its classes name. -/
def Lexes (e : Engine) (q : PagePlace) : Prop :=
  ∃ language spans, Marks.languageOf q.tag = some language ∧
    e.highlight (String.ofList (Node.textContents q.children)) language = .ok spans

/-- A code that is to be highlighted is in a language of the engine. -/
theorem exists_language_of_isBusy (h : isBusy isOld e q = true) :
    ∃ language, Marks.languageOf q.tag = some language ∧ (e.get? language).isSome = true := by
  obtain ⟨pre, -, h⟩ := (Option.any_eq_true ..).1 h
  rw [Bool.and_eq_true, Option.any_eq_true] at h
  exact h.2

/-- A code that is lexed puts its block, highlighted, in the place of the one around it. -/
theorem visit_of_lexes (hbusy : isBusy isOld h.engine q = true) (hfault : h.fault = none)
    (hlexes : Lexes h.engine q) (hparent : ∀ pre ∈ q.parent, pre.NulFree)
    (hfree : q.node.NulFree) :
    ∃ pre language new, q.parent = some pre ∧ Marks.languageOf q.tag = some language ∧
      IsNewBlock pre q.tag new ∧ visit isOld q.parent q.tag q.children h =
        ({ around := some new },
          { h with engine := h.engine.keepLexer language, count := h.count + 1 }) := by
  have hloud : ¬ Silent isOld h.engine q := by
    rw [← isBusy_eq_false_iff, hbusy]
    exact Bool.false_ne_true.symm
  obtain ⟨pre, language, hpre, -, hlanguage, -, hvisit⟩ := visit_of_busy hloud hfault
  obtain ⟨language', spans, hlanguage', hspans⟩ := hlexes
  obtain rfl : language = language' := Option.some.inj (hlanguage.symm.trans hlanguage')
  obtain ⟨htag, hchildren⟩ := hfree.of_element
  have htext : '\x00' ∉ Node.textContents q.children :=
    Node.NulFree.not_mem_textContents hchildren
  obtain ⟨ns, hread, hns⟩ := exists_read_of_highlight (hparent pre hpre) htag htext hspans
  refine ⟨pre, language, _, hpre, hlanguage, .intro hns, ?_⟩
  rw [hvisit, highlight, hspans]
  simp only [hread]

/-- A code that was highlighted without a fault was lexed. -/
theorem lexes_of_answer (hbusy : isBusy isOld h.engine q = true)
    (hend : (q.answer (visit isOld) h).fault = none) : Lexes h.engine q := by
  have hfault : h.fault = none := by
    by_contra hfault
    rw [PagePlace.answer, visit_of_fault hfault] at hend
    exact hfault hend
  have hloud : ¬ Silent isOld h.engine q := by
    rw [← isBusy_eq_false_iff, hbusy]
    exact Bool.false_ne_true.symm
  obtain ⟨pre, language, -, -, hlanguage, -, hvisit⟩ := visit_of_busy hloud hfault
  obtain ⟨fault, herror⟩ | ⟨spans, new, hspans, -, -⟩ :=
    highlight_cases h pre q.tag q.children language
  · rw [PagePlace.answer, hvisit, herror] at hend
    cases hend
  · exact ⟨language, spans, hlanguage, hspans⟩

end Highlighting

/-- An engine makes spans of every text in a language that it knows, if its grammars can be made
lexers and every lexer that it may use gives tokens. -/
theorem Engine.exists_spans {e : Engine} {name : String}
    (hcompile : ∀ g, e.get? name = some g → ∃ l, g.compile = .ok l)
    (htokens : ∀ l, e.MayUse l → ∀ code, ∃ tokens, l.tokensOf .keepingLines code = .ok tokens)
    (hknown : (e.get? name).isSome = true) (code : String) :
    ∃ spans, e.highlight code name = .ok spans := by
  obtain ⟨g, hg⟩ := Option.isSome_iff_exists.1 hknown
  obtain ⟨l, e', hlexer⟩ : ∃ l e', e.lexer name = .ok (l, e') := by
    obtain ⟨l, hl⟩ := hcompile g hg
    unfold Engine.lexer
    rw [hg]
    cases hkept : e.lexers.lookup g.name with
    | some kept => exact ⟨kept, e, by simp only [hkept]⟩
    | none => exact ⟨l, { e with lexers := (g.name, l) :: e.lexers }, by simp only [hkept, hl]⟩
  obtain ⟨tokens, ht⟩ := htokens l (Engine.mayUse_of_lexer hlexer) code
  exact ⟨_, Engine.highlight_of_lexer hlexer ht⟩

/-! ## The whole page -/

namespace Html

mutual

/-- The tags around the elements of a node have no U+0000 if those of the node have none. -/
theorem Node.NulFree.of_mem_parents {parent : Option Tag} {q : PagePlace}
    (hparent : ∀ tag ∈ parent, tag.NulFree) : ∀ {n : Node}, n.NulFree → q ∈ n.places parent →
      ∀ tag ∈ q.parent, tag.NulFree
  | .text _, _, hq => absurd hq List.not_mem_nil
  | .comment _, _, hq => absurd hq List.not_mem_nil
  | .element tag children, h, hq => by
    obtain ⟨htag, hchildren⟩ := h.of_element
    rcases List.mem_cons.1 hq with rfl | hq
    · exact hparent
    · exact Node.NulFree.of_mem_parentsAll (fun t ht => Option.some.inj ht ▸ htag) hchildren hq

theorem Node.NulFree.of_mem_parentsAll {parent : Option Tag} {q : PagePlace}
    (hparent : ∀ tag ∈ parent, tag.NulFree) : ∀ {ns : List Node}, (∀ n ∈ ns, n.NulFree) →
      q ∈ Node.placesAll parent ns → ∀ tag ∈ q.parent, tag.NulFree
  | [], _, hq => absurd hq List.not_mem_nil
  | n :: rest, h, hq => by
    obtain ⟨hn, hrest⟩ := List.forall_mem_cons.1 h
    rcases List.mem_append.1 hq with hq | hq
    · exact Node.NulFree.of_mem_parents hparent hn hq
    · exact Node.NulFree.of_mem_parentsAll hparent hrest hq

end

namespace Page

variable {p : Page} {e : Engine} {before after : List PagePlace} {q : PagePlace}

/-- How far the highlighting of a page is when the elements before a place have been visited. -/
def litBefore (p : Page) (e : Engine) (before : List PagePlace) : Highlighting :=
  before.foldl (PagePlace.answer (Highlighting.visit p.isOld)) { engine := e }

/-- Whether each code that is to be highlighted is lexed, by the engine as it is when the code's
turn comes. -/
def LexesEveryBlock (p : Page) (e : Engine) : Prop :=
  ∀ before q after, p.root.places none = before ++ q :: after →
    Highlighting.isBusy p.isOld e q = true → Highlighting.Lexes (p.litBefore e before).engine q

theorem litBefore_append_singleton (p : Page) (e : Engine) (before : List PagePlace)
    (q : PagePlace) : p.litBefore e (before ++ [q]) =
      q.answer (Highlighting.visit p.isOld) (p.litBefore e before) := by
  rw [litBefore, List.foldl_append]
  rfl

theorem highlight_eq_litBefore (p : Page) (e : Engine) :
    (p.highlight e).2 = p.litBefore e (p.root.places none) := by
  rw [highlight, rewrite_answers, litBefore]

theorem languages_litBefore (p : Page) (e : Engine) (before : List PagePlace) :
    (p.litBefore e before).engine.languages = e.languages :=
  (Highlighting.counts p.isOld e).inv_foldl before rfl

theorem isBusy_litBefore (p : Page) (e : Engine) (before : List PagePlace) (q : PagePlace) :
    Highlighting.isBusy p.isOld (p.litBefore e before).engine q =
      Highlighting.isBusy p.isOld e q :=
  Highlighting.isBusy_congr (p.languages_litBefore e before)

/-- Where highlighting ends well, nothing has gone wrong anywhere. -/
theorem fault_litBefore (hend : (p.highlight e).2.fault = none)
    (hplaces : p.root.places none = before ++ after) : (p.litBefore e before).fault = none := by
  rw [highlight_eq_litBefore, hplaces, litBefore, List.foldl_append] at hend
  exact (Highlighting.counts p.isOld e).good_of_foldl after hend

/-- **Highlighting a page ends well exactly if each code is lexed when its turn comes.** -/
theorem fault_highlight_eq_none_iff (hfree : p.root.NulFree) :
    (p.highlight e).2.fault = none ↔ p.LexesEveryBlock e := by
  constructor
  · intro hend before q after hplaces hbusy
    rw [← isBusy_litBefore p e before] at hbusy
    refine Highlighting.lexes_of_answer hbusy ?_
    rw [← litBefore_append_singleton]
    exact fault_litBefore hend (hplaces.trans (List.append_cons ..))
  · intro hlexes
    -- nothing has gone wrong before the first place, and one place leads to the next
    have hall : ∀ before after, p.root.places none = before ++ after →
        (p.litBefore e before).fault = none := by
      intro before
      induction before using List.reverseRecOn with
      | nil => exact fun _ _ => rfl
      | append_singleton before q ih =>
        intro after hplaces
        have hplaces' : p.root.places none = before ++ q :: after :=
          hplaces.trans (List.append_cons ..).symm
        have hfault := ih _ hplaces'
        have hq : q ∈ p.root.places none := by simp [hplaces']
        rw [litBefore_append_singleton, PagePlace.answer]
        cases hbusy : Highlighting.isBusy p.isOld e q with
        | false =>
          rw [← isBusy_litBefore p e before, Highlighting.isBusy_eq_false_iff] at hbusy
          obtain ⟨log, hvisit⟩ := Highlighting.visit_of_silent hbusy
          rw [hvisit]
          exact hfault
        | true =>
          have hlexed := hlexes before q after hplaces' hbusy
          rw [← isBusy_litBefore p e before] at hbusy
          obtain ⟨pre, language, new, -, -, -, hvisit⟩ := Highlighting.visit_of_lexes hbusy hfault
            hlexed (hfree.of_mem_parents (by simp) hq) (hfree.of_mem_places hq)
          rw [hvisit]
          exact hfault
    rw [highlight_eq_litBefore]
    exact hall _ [] (List.append_nil _).symm

/-- Where every grammar can be made a lexer and every lexer gives tokens for every text, each code
is lexed. -/
theorem lexesEveryBlock_of_tokens (p : Page)
    (hcompile : ∀ name g, e.get? name = some g → ∃ l, g.compile = .ok l)
    (htokens : ∀ l, e.MayUse l → ∀ code, ∃ tokens, l.tokensOf .keepingLines code = .ok tokens) :
    p.LexesEveryBlock e := by
  intro before q after _ hbusy
  rw [← isBusy_litBefore p e before] at hbusy
  have hused : (p.litBefore e before).MakesDoWith e :=
    good_foldl Highlighting.MakesDoWith.answer before fun _ hl => hl
  have hget : ∀ name, (p.litBefore e before).engine.get? name = e.get? name :=
    Engine.get?_congr (p.languages_litBefore e before)
  obtain ⟨language, hlanguage, hknown⟩ := Highlighting.exists_language_of_isBusy hbusy
  obtain ⟨spans, hspans⟩ := Engine.exists_spans (fun g hg => hcompile language g (hget _ ▸ hg))
    (fun l hl => htokens l (hused l hl)) hknown (String.ofList (Node.textContents q.children))
  exact ⟨language, spans, hlanguage, hspans⟩

/-- Where nothing but other elements than codes comes before a place, the engine gets there as it
is. -/
theorem litBefore_of_other (hnew : p.isOld = false) (hbefore : ∀ q ∈ before, q.tag.name ≠ "code") :
    p.litBefore e before = { engine := e } := by
  rw [litBefore, hnew, Highlighting.foldl_of_other hbefore]

end Page
end Html
end DocHighlighter
