/-
# How far spans without inner spans reach

What the spans of the rules without inner rules cover can be read off the text (`Extent`); what is
open around them only says which of them can be opened there.  In every text, wherever a run of the
lexer opens such a span, it covers just that, in tokens of one kind, and if its end is found, the
stack of states is then what it was before the opening (`leafSpan_extent`).

| span | opened in | covers | ends |
|---|---|---|---|
| comment | the root | the line from the slashes on | always |
| type | the root, documentation | all through the closing brace, or to the end | if there is one |
| attribute | documentation | all through the closing bracket, or to the end | if there is one |
| number, reference | the root | the opening, and what comes before the end of a literal | always |
| argument | an attribute | all through the closing parenthesis, or to the end | if there is one |
-/

import DocHighlighter.Proofs.Grammar.Extents
import DocHighlighter.Proofs.Language.Idl.Plain
import DocHighlighter.Proofs.Language.Idl.Spans

namespace DocHighlighter

open Scanner
open Text (Cursor isBlank isWord isDigit)

namespace Language
namespace Idl

/-- An attribute that is mentioned in documentation. -/
def attributeMention : SpanRule := ⟨"attribute", r"\[", some r"\]", []⟩

theorem docSpans_eq : docSpans = [typeReference, attributeMention] :=
  rfl

/-- The rules with documentation in them. -/
def IsDocumentation (r : SpanRule) : Prop :=
  r = documentation ∨ r = fencedDocumentation

/-- **What a span of a rule without inner rules covers,** by the rules around it: its opening begins
at `c` and ends at `d`.  The last part says whether its end is found. -/
inductive Extent (c d : Cursor) : List SpanRule → SpanRule → List Char → Bool → Prop
  | comment (hopen : c.upTo d = ['/', '/']) :
      Extent c d [] comment (c.after.takeWhile (· != '\n')) true
  | type (hopen : c.upTo d = ['{']) :
      Extent c d [] typeReference (Text.through '}' c.after) (c.after.contains '}')
  | docType {outer : SpanRule} (houter : IsDocumentation outer) (hopen : c.upTo d = ['{']) :
      Extent c d [outer] typeReference (Text.through '}' c.after) (c.after.contains '}')
  | docAttribute {outer : SpanRule} (houter : IsDocumentation outer) (hopen : c.upTo d = ['[']) :
      Extent c d [outer] attributeMention (Text.through ']' c.after) (c.after.contains ']')
  | number (hopen : SignThenRun ':' isDigit (c.upTo d)) :
      Extent c d [] literal (c.upTo d ++ d.after.takeWhile fun a => !endsLiteral a) true
  | reference (hopen : SignThenRun ':' isWord (c.upTo d)) :
      Extent c d [] namedLiteral (c.upTo d ++ d.after.takeWhile fun a => !endsLiteral a) true
  | numberArgument (hopen : SignThenRun '(' isDigit (c.upTo d)) :
      Extent c d [attributes] ⟨"number", r"\(\s*\d+", some r"\)", []⟩ (Text.through ')' c.after)
        (c.after.contains ')')
  | referenceArgument (hopen : SignThenRun '(' isWord (c.upTo d)) :
      Extent c d [attributes] ⟨"reference", r"\(\s*\w+", some r"\)", []⟩ (Text.through ')' c.after)
        (c.after.contains ')')

/-- Only comments cover what comments do. -/
theorem Extent.of_comment {c d : Cursor} {around : List SpanRule} {covered : List Char}
    {found : Bool} (h : Extent c d around Idl.comment covered found) :
    covered = c.after.takeWhile (· != '\n') ∧ found = true := by
  generalize hr : Idl.comment = r at h
  cases h with
  | comment => exact ⟨rfl, rfl⟩
  | _ => exact absurd (congrArg SpanRule.tag hr) (by decide)

theorem opensApart : grammar.OpensApart := by
  intro opened hopened
  cases opened with
  | nil => decide
  | cons r opened =>
    have hall : ∀ r ∈ grammar.allRules, (r.inner.map SpanRule.opening).Nodup := by decide
    exact hall r (hopened.2.2.mem_allRules hopened.1)

/-! ## What the rules cover -/

section Rules

variable {c d : Cursor} {r outer : SpanRule}

theorem exists_extent_root (hr : r ∈ grammar.rules) (hinner : r.inner = [])
    (h : grammar.matchEnd? r.opening c = some d) :
    ∃ covered found, Extent c d [] r covered found ∧ grammar.Covers r [] c d covered found := by
  have hlead := Grammar.matchEnd?_leadsTo h
  simp only [grammar, List.mem_cons, List.not_mem_nil, or_false] at hr
  rcases hr with rfl | rfl | rfl | rfl | rfl | rfl | rfl
  · have hopen := upTo_of_over? ((matchEnd?_slashes c).symm.trans h)
    have hcovers := Grammar.covers_of_ahead (r := comment) rfl matchEnd?_lineEnd hlead []
    have hline : c.upTo d ++ (d.after.takeWhile fun a => !(a == '\n')) =
        c.after.takeWhile (· != '\n') := by
      rw [hlead.after_eq, hopen]
      rfl
    rw [hline] at hcovers
    exact ⟨_, _, .comment hopen, hcovers⟩
  · cases hinner
  · cases hinner
  · have hopen := upTo_of_over? ((matchEnd?_openBrace c).symm.trans h)
    exact ⟨_, _, .type hopen, Grammar.covers_of_sign rfl matchEnd?_closeBrace hlead
      (by rw [hopen]; decide) []⟩
  · cases hinner
  · have hopen := signThenRun_of_opening ((matchEnd?_number c).symm.trans h)
    exact ⟨_, _, .number hopen, Grammar.covers_of_ahead rfl matchEnd?_literalEnd hlead []⟩
  · have hopen := signThenRun_of_opening ((matchEnd?_reference c).symm.trans h)
    exact ⟨_, _, .reference hopen, Grammar.covers_of_ahead rfl matchEnd?_literalEnd hlead []⟩

theorem exists_extent_docSpans (houter : IsDocumentation outer) (hr : r ∈ docSpans)
    (h : grammar.matchEnd? r.opening c = some d) :
    ∃ covered found, Extent c d [outer] r covered found ∧
      grammar.Covers r [outer] c d covered found := by
  have hlead := Grammar.matchEnd?_leadsTo h
  rw [docSpans_eq, List.mem_pair] at hr
  rcases hr with rfl | rfl
  · have hopen := upTo_of_over? ((matchEnd?_openBrace c).symm.trans h)
    exact ⟨_, _, .docType houter hopen, Grammar.covers_of_sign rfl matchEnd?_closeBrace hlead
      (by rw [hopen]; decide) _⟩
  · have hopen := upTo_of_over? ((matchEnd?_openBracket c).symm.trans h)
    exact ⟨_, _, .docAttribute houter hopen, Grammar.covers_of_sign rfl matchEnd?_closeBracket
      hlead (by rw [hopen]; decide) _⟩

theorem exists_extent_attributes (hr : r ∈ attributes.inner)
    (h : grammar.matchEnd? r.opening c = some d) :
    ∃ covered found, Extent c d [attributes] r covered found ∧
      grammar.Covers r [attributes] c d covered found := by
  have hlead := Grammar.matchEnd?_leadsTo h
  rcases List.mem_pair.1 hr with rfl | rfl
  · have hopen := signThenRun_of_opening ((matchEnd?_numberArgument c).symm.trans h)
    refine ⟨_, _, .numberArgument hopen, Grammar.covers_of_sign rfl matchEnd?_closeParenthesis
      hlead (fun hx => ?_) _⟩
    exact absurd (hopen.mem hx) (by decide)
  · have hopen := signThenRun_of_opening ((matchEnd?_referenceArgument c).symm.trans h)
    refine ⟨_, _, .referenceArgument hopen, Grammar.covers_of_sign rfl matchEnd?_closeParenthesis
      hlead (fun hx => ?_) _⟩
    exact absurd (hopen.mem hx) (by decide)

/-- **Every span of a rule without inner rules** covers what is said of it. -/
theorem exists_extent {around : List SpanRule} (hopened : grammar.Opened around)
    (hr : r ∈ grammar.candidates around) (hinner : r.inner = [])
    (h : grammar.matchEnd? r.opening c = some d) :
    ∃ covered found, Extent c d around r covered found ∧
      grammar.Covers r around c d covered found := by
  cases around with
  | nil => exact exists_extent_root hr hinner h
  | cons outer around =>
    have houter := mem_rules_of_opened hopened hr
    -- A rule with inner rules cannot be opened inside of another one.
    have hnil : around = [] := by
      cases around with
      | nil => rfl
      | cons o around =>
        have hmem := mem_rules_of_opened hopened.2.2 hopened.1
        rw [Grammar.candidates, (isInner_of_mem hmem hopened.1).inner_eq] at hr
        cases hr
    subst hnil
    simp only [grammar, List.mem_cons, List.not_mem_nil, or_false] at houter
    rcases houter with rfl | rfl | rfl | rfl | rfl | rfl | rfl
    · cases hr
    · exact exists_extent_docSpans (.inr rfl) hr h
    · exact exists_extent_docSpans (.inl rfl) hr h
    · cases hr
    · exact exists_extent_attributes hr h
    · cases hr
    · cases hr

end Rules

/-! ## Spans in a text -/

/-- **Spans without inner spans have exact extents.**  In every text, a step of a run of the lexer
that puts a state on the stack opens a rule.  If that has no inner rules, the run goes through its
span: what it covers is said by `Extent`, all its tokens are of one kind and stand among the tokens
of the text, and if its end is found, the stack is then what it was before the opening, else the
text is over and the span still open. -/
theorem leafSpan_extent :
    ∃ (l : Lexer) (table : Table) (ready : ReadyTable),
      grammar.compile = .ok l ∧ l.body = .table grammar.scanFlags table ∧
      table.ready grammar.scanFlags = .ok ready ∧
      ∀ (text : List Char) (nested : Nested) (n : Nat) (before first : List Token) (m m₁ : Config),
        Steps ready nested n (startOf text) before m →
        step ready nested m = .ok (some (first, m₁)) → m.stack.length < m₁.stack.length →
        ∃ around r, grammar.Follows m ⟨m.cursor, around⟩ ∧
          grammar.Follows m₁ ⟨m₁.cursor, r :: around⟩ ∧
          (r.inner = [] → ∃ inside m₂ found rest,
            SpanSteps ready nested m₁.stack.length m₁ inside m₂ ∧
            Extent m.cursor m₁.cursor around r (m.cursor.upTo m₂.cursor) found ∧
            Grammar.Uniform r.kind (first ++ inside) (m.cursor.upTo m₂.cursor) ∧
            (m₂.stack = if found then m.stack else m₁.stack) ∧
            l.tokens text = .ok (before ++ (first ++ inside) ++ rest)) := by
  obtain ⟨table, ready, ht, hr, hof⟩ := Grammar.exists_ready tagsKnown patternsRead
  obtain ⟨l, hl, hbody, hretag⟩ := Grammar.exists_ruleLexer rfl ht
  refine ⟨l, table, ready, hl, hbody, hr, ?_⟩
  intro text nested n before first m m₁ hsteps hstep hpush
  obtain ⟨k, hreads, hm⟩ :=
    (Grammar.Follows.here (g := grammar) (Cursor.start text) .root).exists_readsTo ht hr hsteps
  have hopened : grammar.Opened k.opened := hreads.opened trivial
  obtain ⟨r, hmem, -, hopens, rfl, hm₁, hread⟩ := hm.exists_opened ht hr hopened hstep hpush
  have hcursor := hm.cursor_eq
  obtain ⟨c, around⟩ := k
  obtain rfl : m.cursor = c := hcursor
  refine ⟨around, r, hm, hm₁, fun hinner => ?_⟩
  obtain ⟨covered, found, hextent, written, hclosing, rfl, hfound⟩ :=
    exists_extent hopened hmem hinner hopens
  obtain ⟨inside, m₂, hspan, hinside, hm₂, huniform⟩ :=
    hm₁.exists_spanSteps nested ht hr hinner hclosing
  obtain ⟨-, tokens, -, -, -, -, hscan, -⟩ := exists_cover hof openingsTake text
  obtain ⟨rest, rfl, -⟩ :=
    (hreads.trans (.next hread hinside)).exists_rest ((Grammar.scan_eq_ok_iff ht hr).1 hscan)
  have hlead := Grammar.matchEnd?_leadsTo hopens
  have hfirst : Grammar.Uniform r.kind [.ofChars r.kind (m.cursor.upTo m₁.cursor)]
      (m.cursor.upTo m₁.cursor) := ⟨by simp [Token.ofChars], by simp [Token.textOf, Token.ofChars]⟩
  have hall := hfirst.append huniform
  rw [hlead.upTo_append (Grammar.leadsTo_leave r written around _)] at hall
  rw [← hm₂.cursor_eq] at hextent hall
  refine ⟨inside, m₂, found, rest, hspan, hextent, hall, ?_, ?_⟩
  · cases found with
    | true => exact hm₂.stack_unique opensApart hm hfound
    | false => exact hm₂.stack_unique opensApart hm₁ hfound
  · rw [Lexer.tokens_of_ready hbody hretag hr, hscan]
    rfl

/-- A brace in a comment, and a keyword on the next line. -/
def commentedBrace : List Char :=
  ['/', '/', ' ', '{', '\n', 'a', 'p', 'i']

/-- The brace in the comment opens nothing, and behind the line the stack is again that of the
root. -/
theorem leafSpan_extent_comment :
    ∃ (l : Lexer) (ready : ReadyTable) (m₁ m₂ : Config) (inside rest : List Token),
      grammar.compile = .ok l ∧
      Steps ready (nestedOf ready commentedBrace) 0 (startOf commentedBrace) []
        (startOf commentedBrace) ∧
      step ready (nestedOf ready commentedBrace) (startOf commentedBrace) =
        .ok (some ([⟨.commentSingle, "//"⟩], m₁)) ∧
      (startOf commentedBrace).stack.length < m₁.stack.length ∧ comment.inner = [] ∧
      SpanSteps ready (nestedOf ready commentedBrace) m₁.stack.length m₁ inside m₂ ∧
      (Cursor.start commentedBrace).upTo m₂.cursor = ['/', '/', ' ', '{'] ∧
      m₂.stack = [rootState] ∧
      l.tokens commentedBrace = .ok (⟨.commentSingle, "//"⟩ :: (inside ++ rest)) := by
  obtain ⟨l, table, ready, hl, hbody, hr, hspans⟩ := leafSpan_extent
  have ht := (Grammar.table_of_body rfl hl hbody).1
  have hopening : grammar.opening? (grammar.candidates []) (Cursor.start commentedBrace) =
      some (comment, (Cursor.start commentedBrace).past 2) :=
    (opening?_rules _).trans (by rfl)
  have hstart := Grammar.Follows.here (g := grammar) (Cursor.start commentedBrace) .root
  obtain ⟨hend, -⟩ | ⟨first, m₁, k₁, hread, hstep, hm₁⟩ :=
    hstart.step (nestedOf ready commentedBrace) ht hr
  · rw [Grammar.read?_of_opening hopening] at hend
    cases hend
  rw [Grammar.read?_of_opening hopening] at hread
  obtain ⟨rfl, rfl⟩ := Prod.mk.inj (Option.some.inj hread)
  have hpush : (startOf commentedBrace).stack.length < m₁.stack.length := by
    rw [hm₁.length_stack]
    decide
  obtain ⟨around, r, hm, hm₁', hspan⟩ :=
    hspans commentedBrace _ 0 [] _ _ m₁ (.refl _) hstep hpush
  obtain ⟨rfl, rfl⟩ : comment = r ∧ [] = around := List.cons.inj (hm₁.opened_unique hm₁' rfl)
  obtain ⟨inside, m₂, found, rest, hsteps, hextent, -, hstack, htokens⟩ := hspan rfl
  obtain ⟨hcovered, rfl⟩ := hextent.of_comment
  exact ⟨l, ready, m₁, m₂, inside, rest, hl, .refl _, hstep, hpush, rfl, hsteps, hcovered, hstack,
    htokens⟩

end Idl
end Language
end DocHighlighter
