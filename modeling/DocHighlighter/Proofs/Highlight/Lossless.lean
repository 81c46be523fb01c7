/-
# Highlighting keeps the text

What an engine makes of a text is escaped text and spans with escaped text in them, and
says the text itself: without a byte order mark at its start, with newlines in one
spelling, and without those at its end (`Text.shown`).  Nothing in the text can begin a
tag or a reference, and newlines at its start stay.

All it takes is that the tokens of the lexer are the prepared text
(`Lexer.IsLosslessOn`).  Grammars with rules of their own have such lexers, whatever
their patterns match.
-/

import DocHighlighter.Proofs.Block.Stages
import DocHighlighter.Proofs.Grammar.WholeMatches

namespace DocHighlighter

/-- What highlighting shows of a text. -/
def Text.shown (text : List Char) : List Char :=
  Text.stripEnd (· == '\n') (Text.unifyNewlines (withoutMark text))

/-- The newline that a text is prepared with is not shown. -/
theorem Preparation.stripEnd_keepingLines (text : List Char) :
    Text.stripEnd (· == '\n') (Preparation.keepingLines.apply text) = Text.shown text := by
  rw [keepingLines_apply, Text.endLine]
  split
  · rfl
  · exact Text.stripEnd_newline _

/-- The tokens that a lexer gives for a text are the prepared text. -/
def Lexer.IsLosslessOn (l : Lexer) (code : String) : Prop :=
  ∃ tokens, l.tokensOf .keepingLines code = .ok tokens ∧
    Token.textOf tokens = Preparation.keepingLines.apply code.toList

/-- A grammar with rules of its own, whose openings take text, has a lexer that is lossless on every
text. -/
theorem Grammar.exists_isLosslessOn {g : Grammar} (hlexer : g.lexer = none) (htags : g.TagsKnown)
    (hread : g.PatternsRead) (hopen : g.OpeningsTake) :
    ∃ l, g.compile = .ok l ∧ ∀ code, l.IsLosslessOn code := by
  obtain ⟨table, ready, ht, hr, hof⟩ := Grammar.exists_ready htags hread
  obtain ⟨l, hcompile, hbody, hretag⟩ := Grammar.exists_ruleLexer hlexer ht
  refine ⟨l, hcompile, fun code => ?_⟩
  obtain ⟨-, tokens, -, -, -, -, hscan, hcover⟩ :=
    Scanner.exists_cover hof hopen (Preparation.keepingLines.apply code.toList)
  refine ⟨tokens, ?_, hcover.textOf_eq⟩
  rw [Lexer.tokensOf, Lexer.tokens_of_ready hbody hretag hr, hscan]
  rfl

namespace Engine

variable {e e' : Engine} {name code : String} {l : Lexer}

/-- An engine highlights with the tokens of the lexer that it finds. -/
theorem highlight_of_lexer (hlexer : e.lexer name = .ok (l, e')) {tokens : List Token}
    (htokens : l.tokensOf .keepingLines code = .ok tokens) :
    e.highlight code name = .ok (Spans.ofTokens tokens) := by
  simp [highlight, rawTokens, hlexer, htokens, bind, Except.bind, pure, Except.pure, Except.map]

/-- What an engine makes of a text says what is shown of it. -/
theorem exists_made (hlexer : e.lexer name = .ok (l, e')) (hl : l.IsLosslessOn code) :
    ∃ spans, e.highlight code name = .ok spans ∧
      Spans.Made spans.toList (Text.shown code.toList) := by
  obtain ⟨tokens, htokens, htext⟩ := hl
  refine ⟨_, highlight_of_lexer hlexer htokens, ?_⟩
  rw [← Preparation.stripEnd_keepingLines, ← htext]
  exact Spans.ofTokens_made tokens

/-- **Highlighting keeps the text.**  The tokens of a grammar with rules of its own are the text,
whenever its lexer comes to an end, and it does on every text if the openings take text.  Where
the tokens of a lexer are the text, highlighting gives text that is escaped and spans of one line
each, not inside each other; and what is read once the tags are taken out is what is shown of the
text. -/
theorem highlight_readsBack :
    (∀ g : Grammar, g.lexer = none →
      (∀ l, g.compile = .ok l → ∀ code tokens, l.tokensOf .keepingLines code = .ok tokens →
        l.IsLosslessOn code) ∧
      (g.TagsKnown → g.PatternsRead → g.OpeningsTake →
        ∃ l, g.compile = .ok l ∧ ∀ code, l.IsLosslessOn code)) ∧
    ∀ (e : Engine) (name code : String) (l : Lexer) (e' : Engine),
      e.lexer name = .ok (l, e') → l.IsLosslessOn code →
        ∃ pieces : List Spans.Piece, (∀ p ∈ pieces, p.IsProper) ∧
          e.highlight code name = .ok (String.ofList (pieces.flatMap Spans.Piece.markup)) ∧
          pieces.flatMap Spans.Piece.chars = Text.shown code.toList ∧
          Html.Reference.decode false
              (Spans.withoutTags false (pieces.flatMap Spans.Piece.markup)) =
            Text.shown code.toList := by
  refine ⟨fun g hlexer => ⟨fun l hcompile code tokens htokens => ?_, ?_⟩, ?_⟩
  · exact ⟨tokens, htokens, Grammar.textOf_of_tokens hlexer hcompile htokens⟩
  · exact Grammar.exists_isLosslessOn hlexer
  · intro e name code l e' hlexer hl
    obtain ⟨spans, hspans, hmade⟩ := exists_made hlexer hl
    have hread := hmade.decode_withoutTags
    obtain ⟨pieces, hproper, hmarkup, hchars⟩ := hmade
    rw [hmarkup] at hread
    refine ⟨pieces, hproper, ?_, hchars.symm, hread⟩
    rw [hspans, ← hmarkup, String.ofList_toList]

/-- An engine that knows nothing but the interface definition language. -/
def idlOnly : Engine := ⟨[("idl", Language.Idl.grammar)], [], "default"⟩

theorem lexer_idlOnly {l : Lexer} (h : Language.Idl.grammar.compile = .ok l) :
    idlOnly.lexer "idl" = .ok (l, { idlOnly with lexers := [("idl", l)] }) := by
  have hget : idlOnly.get? "idl" = some Language.Idl.grammar := rfl
  have hkept : idlOnly.lexers = [] := rfl
  rw [Engine.lexer, hget]
  simp only [hkept, List.lookup_nil, h]
  rfl

theorem exists_lexer_idlOnly :
    ∃ l e', idlOnly.lexer "idl" = .ok (l, e') ∧ ∀ code, l.IsLosslessOn code := by
  obtain ⟨l, hcompile, hl⟩ := Grammar.exists_isLosslessOn rfl Language.Idl.tagsKnown
    Language.Idl.patternsRead Language.Idl.openingsTake
  exact ⟨l, _, lexer_idlOnly hcompile, hl⟩

/-- An engine that knows the interface definition language keeps a newline at the start, and shows a
tag that stands in the text. -/
theorem highlight_readsBack_idl :
    Language.Idl.grammar.lexer = none ∧ Language.Idl.grammar.TagsKnown ∧
      Language.Idl.grammar.PatternsRead ∧ Language.Idl.grammar.OpeningsTake ∧
      ∃ pieces : List Spans.Piece, (∀ p ∈ pieces, p.IsProper) ∧
        (⟨[("idl", Language.Idl.grammar)], [], "default"⟩ : Engine).highlight
          "\n<b>&amp;</b> // 1\r\n\n" "idl" =
            .ok (String.ofList (pieces.flatMap Spans.Piece.markup)) ∧
        pieces.flatMap Spans.Piece.chars = "\n<b>&amp;</b> // 1".toList ∧
        Html.Reference.decode false
            (Spans.withoutTags false (pieces.flatMap Spans.Piece.markup)) =
          "\n<b>&amp;</b> // 1".toList := by
  open Language.Idl in
  refine ⟨rfl, tagsKnown, patternsRead, openingsTake, ?_⟩
  obtain ⟨l, hcompile, hl⟩ := (highlight_readsBack.1 Language.Idl.grammar rfl).2
    Language.Idl.tagsKnown Language.Idl.patternsRead Language.Idl.openingsTake
  have hshown : Text.shown "\n<b>&amp;</b> // 1\r\n\n".toList = "\n<b>&amp;</b> // 1".toList := by
    decide
  have hread := highlight_readsBack.2 _ "idl" "\n<b>&amp;</b> // 1\r\n\n" l _
    (lexer_idlOnly hcompile) (hl _)
  rw [hshown] at hread
  exact hread

end Engine
end DocHighlighter
