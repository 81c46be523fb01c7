/-
# What the patterns of the interface definition language match

| pattern | its match at a place |
|---|---|
| a sign, such as `\{` | the sign |
| `//`, three backticks | the signs |
| `:\s*\d+`, `:\s*\w+`, and the same with `\(` | the sign, all blanks, the run behind them |
| `@\s*` and three backticks | the sign, all blanks, the backticks |
| `@\s*(\w+)?` | the sign, all blanks, the run of word characters if there is one |
| the end of a line, the end of a literal | nothing, where the line or the literal ends |
-/

import DocHighlighter.Proofs.Grammar.Refines
import DocHighlighter.Proofs.Language.Idl
import DocHighlighter.Proofs.Pattern.Sequences
import DocHighlighter.Proofs.Text.Classes

namespace DocHighlighter

open Text (Cursor isBlank isWord isDigit)
open Pattern (Expr)

/-- A pattern that reads as an expression matches where the expression does. -/
theorem Grammar.matchEnd?_of_read {g : Grammar} {written : String} {e : Expr}
    (h : (Pattern.read g.scanFlags written).toOption = some ⟨e, g.scanFlags⟩) (c : Cursor) :
    g.matchEnd? written c = ((⟨e, g.scanFlags⟩ : Pattern).matchAt? c).map Pattern.Match.stop := by
  rw [Grammar.matchEnd?, eq_ok_of_toOption h]

theorem Grammar.opening?_nil (g : Grammar) (c : Cursor) : g.opening? [] c = none :=
  rfl

namespace Language
namespace Idl

/-- Some blanks, as many as there are. -/
def blanks : Expr :=
  .maybeMany (.ofCategory .blank)

theorem same_scanFlags (a : Char) : grammar.scanFlags.same a = (a == ·) := by
  funext b
  rfl

theorem holds_blank : Pattern.Category.blank.holds grammar.scanFlags.ascii = isBlank := by
  funext b
  show (isBlank b && !(false && _)) = isBlank b
  rw [Bool.false_and, Bool.not_false, Bool.and_true]

theorem holds_word : Pattern.Category.word.holds grammar.scanFlags.ascii = isWord :=
  rfl

/-! ## Expressions -/

/-- The patterns, each with the expression that it reads as. -/
def expressions : List (String × Expr) := [
  (r"\{", .text ['{']), (r"\}", .text ['}']),
  (r"\[", .text ['[']), (r"\]", .text [']']),
  (r"\)", .text [')']), ("//", .text ['/', '/']),
  (r":\s*\d+", .seq (.char ':') (.seq blanks (.many (.ofCategory .digit)))),
  (r":\s*\w+", .seq (.char ':') (.seq blanks (.many (.ofCategory .word)))),
  (r"\(\s*\d+", .seq (.char '(') (.seq blanks (.many (.ofCategory .digit)))),
  (r"\(\s*\w+", .seq (.char '(') (.seq blanks (.many (.ofCategory .word)))),
  (r"@\s*(\w+)?", .seq (.char '@') (.seq blanks
    (.turns 0 (some 1) .greedy (.group 1 (.many (.ofCategory .word)))))),
  (r"@\s*```", .seq (.char '@') (.seq blanks (.text ['`', '`', '`']))),
  (lineEnd, .ahead false (.alt (.char '\n') (.anchor .lineEnd))),
  (literalEnd, .ahead false (.alt (.char '\n') (.alt (.anchor .lineEnd)
    (.alt (.char '@') (.char '['))))),
  ("```", .text ['`', '`', '`'])]

theorem read_expressions : expressions.Forall fun x =>
    (Pattern.read grammar.scanFlags x.1).toOption = some ⟨x.2, grammar.scanFlags⟩ := by
  decide +kernel

/-- How a pattern reads is looked up by its place among the patterns. -/
theorem read_of_getElem? {i : Nat} {written : String} {e : Expr}
    (h : expressions[i]? = some (written, e)) :
    (Pattern.read grammar.scanFlags written).toOption = some ⟨e, grammar.scanFlags⟩ :=
  List.forall_iff_forall_mem.1 read_expressions _ (List.mem_of_getElem? h)

/-! ## Signs -/

/-- A pattern that reads as a text matches where the text comes next. -/
theorem matchEnd?_signs {written : String} {w : List Char}
    (h : (Pattern.read grammar.scanFlags written).toOption = some ⟨.text w, grammar.scanFlags⟩)
    (c : Cursor) : grammar.matchEnd? written c = c.over? w := by
  rw [Grammar.matchEnd?_of_read h]
  exact (Pattern.text_goesTo rfl w).stop_matchAt? c

theorem matchEnd?_openBrace (c : Cursor) : grammar.matchEnd? r"\{" c = c.over? ['{'] :=
  matchEnd?_signs (read_of_getElem? (i := 0) rfl) c

theorem matchEnd?_closeBrace (c : Cursor) : grammar.matchEnd? r"\}" c = c.over? ['}'] :=
  matchEnd?_signs (read_of_getElem? (i := 1) rfl) c

theorem matchEnd?_openBracket (c : Cursor) : grammar.matchEnd? r"\[" c = c.over? ['['] :=
  matchEnd?_signs (read_of_getElem? (i := 2) rfl) c

theorem matchEnd?_closeBracket (c : Cursor) : grammar.matchEnd? r"\]" c = c.over? [']'] :=
  matchEnd?_signs (read_of_getElem? (i := 3) rfl) c

theorem matchEnd?_closeParenthesis (c : Cursor) : grammar.matchEnd? r"\)" c = c.over? [')'] :=
  matchEnd?_signs (read_of_getElem? (i := 4) rfl) c

theorem matchEnd?_slashes (c : Cursor) : grammar.matchEnd? "//" c = c.over? ['/', '/'] :=
  matchEnd?_signs (read_of_getElem? (i := 5) rfl) c

theorem matchEnd?_fence (c : Cursor) : grammar.matchEnd? "```" c = c.over? ['`', '`', '`'] :=
  matchEnd?_signs (read_of_getElem? (i := 14) rfl) c

/-! ## A sign, blanks, and more -/

/-- The place behind a sign, the blanks behind it, and a run of a class behind them. -/
def signThenRun? (a : Char) (p : Char → Bool) (c : Cursor) : Option Cursor :=
  (c.step? (a == ·)).bind fun d => (d.skip isBlank).runEnd? p

theorem matchEnd?_signThenRun {written : String} {a : Char} (kind : Pattern.Category)
    (h : (Pattern.read grammar.scanFlags written).toOption =
      some ⟨.seq (.char a) (.seq blanks (.many (.ofCategory kind))), grammar.scanFlags⟩)
    (hapart : ∀ b, isBlank b = true → kind.holds grammar.scanFlags.ascii b = false) (c : Cursor) :
    grammar.matchEnd? written c = signThenRun? a (kind.holds grammar.scanFlags.ascii) c := by
  have hstop := Pattern.stop_signThenRun (f := grammar.scanFlags) a .blank kind
    (by rw [holds_blank]; exact hapart) c
  rw [Grammar.matchEnd?_of_read h, signThenRun?, ← same_scanFlags, ← holds_blank]
  exact hstop

theorem matchEnd?_number (c : Cursor) :
    grammar.matchEnd? r":\s*\d+" c = signThenRun? ':' isDigit c :=
  matchEnd?_signThenRun .digit (read_of_getElem? (i := 6) rfl)
    (fun _ => Text.isDigit_of_isBlank) c

theorem matchEnd?_reference (c : Cursor) :
    grammar.matchEnd? r":\s*\w+" c = signThenRun? ':' isWord c :=
  matchEnd?_signThenRun .word (read_of_getElem? (i := 7) rfl)
    (fun _ => Text.isWord_of_isBlank) c

theorem matchEnd?_numberArgument (c : Cursor) :
    grammar.matchEnd? r"\(\s*\d+" c = signThenRun? '(' isDigit c :=
  matchEnd?_signThenRun .digit (read_of_getElem? (i := 8) rfl)
    (fun _ => Text.isDigit_of_isBlank) c

theorem matchEnd?_referenceArgument (c : Cursor) :
    grammar.matchEnd? r"\(\s*\w+" c = signThenRun? '(' isWord c :=
  matchEnd?_signThenRun .word (read_of_getElem? (i := 9) rfl)
    (fun _ => Text.isWord_of_isBlank) c

/-- Documentation opens with its sign, all blanks, and a run of word characters if one comes. -/
theorem matchEnd?_documentation (c : Cursor) :
    grammar.matchEnd? r"@\s*(\w+)?" c =
      (c.step? ('@' == ·)).map fun d => (d.skip isBlank).skip isWord := by
  have hread : (Pattern.read grammar.scanFlags r"@\s*(\w+)?").toOption =
      some ⟨.seq (.char '@') (.seq blanks
        (.turns 0 (some 1) .greedy (.group 1 (.many (.ofCategory .word))))),
        grammar.scanFlags⟩ :=
    read_of_getElem? (i := 10) rfl
  have hstop := Pattern.stop_signThenMaybeRun (f := grammar.scanFlags) '@' 1 .blank .word c
  rw [holds_blank, holds_word, same_scanFlags] at hstop
  rw [Grammar.matchEnd?_of_read hread]
  exact hstop

/-- Fenced documentation opens with the sign, all blanks, and the fence. -/
theorem matchEnd?_openFence (c : Cursor) :
    grammar.matchEnd? r"@\s*```" c =
      (c.step? ('@' == ·)).bind fun d => (d.skip isBlank).over? ['`', '`', '`'] := by
  have hread : (Pattern.read grammar.scanFlags r"@\s*```").toOption =
      some ⟨.seq (.char '@') (.seq blanks (.text ['`', '`', '`'])), grammar.scanFlags⟩ :=
    read_of_getElem? (i := 11) rfl
  have hfirst : ∀ d : Cursor,
      (d.step? (Pattern.Category.blank.holds grammar.scanFlags.ascii)).isSome →
        d.over? ['`', '`', '`'] = none := by
    intro d hd
    rw [holds_blank] at hd
    obtain ⟨e, he⟩ := Option.isSome_iff_exists.1 hd
    obtain ⟨b, hnext, hb⟩ := Cursor.step?_eq_some_iff.1 he
    refine if_neg fun hfence => ?_
    rw [Cursor.after_eq_of_next? hnext, List.cons_prefix_cons] at hfence
    rw [← hfence.1] at hb
    exact absurd hb (by decide)
  have hgoes := Pattern.goesTo_blanksThen '@' (Pattern.text_goesTo rfl ['`', '`', '`'])
    hfirst
  rw [holds_blank, same_scanFlags] at hgoes
  rw [Grammar.matchEnd?_of_read hread]
  exact hgoes.stop_matchAt? c

/-! ## Ends -/

/-- What ends a literal: the end of the line, documentation or attributes. -/
def endsLiteral (a : Char) : Bool :=
  a == '\n' || a == '@' || a == '['

theorem matchEnd?_lineEnd (c : Cursor) :
    grammar.matchEnd? lineEnd c = if c.after.head?.all (· == '\n') then some c else none := by
  have hread : (Pattern.read grammar.scanFlags lineEnd).toOption =
      some ⟨.ahead false (.alt (.char '\n') (.anchor .lineEnd)), grammar.scanFlags⟩ :=
    read_of_getElem? (i := 12) rfl
  rw [Grammar.matchEnd?_of_read hread, Pattern.stop_ahead, Pattern.isSome_run_alt,
    Pattern.isSome_run_char, Pattern.isSome_run_lineEnd rfl, same_scanFlags]
  cases c.after with
  | nil => rfl
  | cons a rest =>
    show (if ('\n' == a) || (a == '\n') then _ else _) = if a == '\n' then _ else _
    rw [BEq.comm, Bool.or_self]

theorem matchEnd?_literalEnd (c : Cursor) :
    grammar.matchEnd? literalEnd c = if c.after.head?.all endsLiteral then some c else none := by
  have hread : (Pattern.read grammar.scanFlags literalEnd).toOption =
      some ⟨.ahead false (.alt (.char '\n') (.alt (.anchor .lineEnd)
        (.alt (.char '@') (.char '[')))), grammar.scanFlags⟩ :=
    read_of_getElem? (i := 13) rfl
  rw [Grammar.matchEnd?_of_read hread, Pattern.stop_ahead]
  simp only [Pattern.isSome_run_alt, Pattern.isSome_run_char, same_scanFlags,
    Pattern.isSome_run_lineEnd (f := grammar.scanFlags) rfl]
  cases c.after with
  | nil => rfl
  | cons a rest =>
    show (if ('\n' == a) || ((a == '\n') || (('@' == a) || ('[' == a))) then _ else _) =
      if (a == '\n' || a == '@' || a == '[') then _ else _
    rw [BEq.comm (a := '\n'), BEq.comm (a := '@'), BEq.comm (a := '['), ← Bool.or_assoc,
      ← Bool.or_assoc, Bool.or_self]

/-! ## Openings -/

/-- Outside of all spans the first of the seven rules that matches is opened. -/
theorem opening?_rules (c : Cursor) :
    grammar.opening? grammar.rules c =
      ((c.over? ['/', '/']).map (comment, ·)).or
        ((((c.step? ('@' == ·)).bind fun d => (d.skip isBlank).over? ['`', '`', '`']).map
            (fencedDocumentation, ·)).or
          ((((c.step? ('@' == ·)).map fun d => (d.skip isBlank).skip isWord).map
              (documentation, ·)).or
            (((c.over? ['{']).map (typeReference, ·)).or
              (((c.over? ['[']).map (attributes, ·)).or
                (((signThenRun? ':' isDigit c).map (literal, ·)).or
                  ((signThenRun? ':' isWord c).map (namedLiteral, ·))))))) := by
  rw [← matchEnd?_slashes, ← matchEnd?_openFence, ← matchEnd?_documentation, ← matchEnd?_openBrace,
    ← matchEnd?_openBracket, ← matchEnd?_number, ← matchEnd?_reference]
  show grammar.opening? [comment, fencedDocumentation, documentation, typeReference, attributes,
    literal, namedLiteral] c = _
  simp only [Grammar.opening?_cons, Grammar.opening?_nil, Option.or_none]
  rfl

/-- Inside of documentation a type or an attribute is opened. -/
theorem opening?_docSpans (c : Cursor) :
    grammar.opening? docSpans c =
      ((c.over? ['{']).map (typeReference, ·)).or
        ((c.over? ['[']).map (⟨"attribute", r"\[", some r"\]", []⟩, ·)) := by
  rw [← matchEnd?_openBrace, ← matchEnd?_openBracket, docSpans, Grammar.opening?_cons,
    Grammar.opening?_cons, Grammar.opening?_nil, Option.or_none]
  rfl

end Idl
end Language
end DocHighlighter
