/-
# Words in the interface definition language

Each rule of the language opens with a sign, so none opens where a word begins
(`matchEnd?_of_word`), and each span ends behind a sign or where a line or a literal ends, so none
ends in the middle of a word (`spansEndAtEdges`).  Hence every word that stands outside of all spans
is read as a whole, and it is a keyword exactly if it is one of the language's
(`wordsTaggedExactly`).

| text | is read as |
|---|---|
| `api` | a keyword |
| `apis`, `API` | text |
| `api` in documentation | part of the documentation |
-/

import DocHighlighter.Proofs.Grammar.Tagging
import DocHighlighter.Proofs.Language.Idl.Plain

namespace DocHighlighter

open Scanner
open Text (Cursor isBlank isWord isDigit)

/-- Only which words are keywords counts. -/
theorem Token.TagsWords.congr {words words' : List String} {tokens : List Token}
    (hwords : ∀ w, w ∈ words ↔ w ∈ words') (h : TagsWords words tokens) :
    TagsWords words' tokens := by
  intro before t after htokens
  rw [← hwords]
  exact h before t after htokens

namespace Language
namespace Idl

/-! ## Where spans begin and end -/

section Places

variable {c d : Cursor}

/-- No rule opens where a word character comes next. -/
theorem matchEnd?_of_word (hword : c.after.head?.any isWord = true) :
    ∀ r ∈ grammar.rules, grammar.matchEnd? r.opening c = none := by
  have hopening : grammar.opening? grammar.rules c = none := by
    cases hnext : c.next? with
    | none =>
      rw [Cursor.after_eq_nil_of_next? hnext] at hword
      cases hword
    | some next =>
      obtain ⟨a, d⟩ := next
      rw [Cursor.after_eq_of_next? hnext] at hword
      have ha : isWord a = true := hword
      have hne : ∀ x, isWord x = false → x ≠ a := by
        rintro x hx rfl
        rw [ha] at hx
        cases hx
      have hover : ∀ x w, isWord x = false → c.over? (x :: w) = none := fun x w hx => by
        rw [Cursor.over?_of_next? hnext, if_neg (hne x hx)]
      have hstep : ∀ x, isWord x = false → c.step? (x == ·) = none := fun x hx => by
        rw [Cursor.step?_of_next? hnext, if_neg (by simpa using hne x hx)]
      rw [opening?_rules, signThenRun?, signThenRun?, hover '/' _ (by decide),
        hover '{' _ (by decide), hover '[' _ (by decide), hstep '@' (by decide),
        hstep ':' (by decide)]
      rfl
  intro r hr
  exact Option.map_eq_none_iff.1 (List.findSome?_eq_none_iff.1 hopening r hr)

/-- Behind signs that are no word characters no word goes on. -/
theorem atEdge_of_over? {w : List Char} (hne : w ≠ []) (hw : ∀ a ∈ w, isWord a = false)
    (h : c.over? w = some d) : d.AtEdge := by
  rw [Cursor.over?] at h
  split at h
  · next hlies =>
    obtain rfl := Option.some.inj h
    have hupTo : c.upTo (c.past w.length) = w := by
      rw [Cursor.upTo_past]
      exact (List.prefix_iff_eq_take.1 hlies).symm
    exact (Cursor.leadsTo_past _ c).atEdge (by rwa [hupTo]) (by rwa [hupTo])
  · cases h

/-- Where no word character comes next, no word goes on. -/
theorem atEdge_of_ahead {p : Char → Bool} (hp : ∀ a, p a = true → isWord a = false)
    (h : (if c.after.head?.all p then some c else none) = some d) : d.AtEdge := by
  obtain ⟨hall, hsame⟩ := Option.ite_none_right_eq_some.1 h
  obtain rfl := Option.some.inj hsame
  refine .inr ?_
  cases hhead : c.after.head? with
  | none => rfl
  | some a =>
    rw [hhead] at hall
    exact hp a hall

/-- **No span ends in the middle of a word.** -/
theorem spansEndAtEdges : grammar.SpansEndAtEdges := by
  have hline : ∀ {c d}, grammar.matchEnd? lineEnd c = some d → d.AtEdge := fun {c d} h =>
    atEdge_of_ahead (fun _ => isWord_of_newline) ((matchEnd?_lineEnd c).symm.trans h)
  have hliteral : ∀ {c d}, grammar.matchEnd? literalEnd c = some d → d.AtEdge := fun {c d} h =>
    atEdge_of_ahead (fun _ => isWord_of_endsLiteral) ((matchEnd?_literalEnd c).symm.trans h)
  intro r hr c d h
  simp only [grammar, List.mem_cons, List.not_mem_nil, or_false] at hr
  rcases hr with rfl | rfl | rfl | rfl | rfl | rfl | rfl
  · exact hline h
  · exact atEdge_of_over? (by decide) (by decide) ((matchEnd?_fence c).symm.trans h)
  · exact hline h
  · exact atEdge_of_over? (by decide) (by decide) ((matchEnd?_closeBrace c).symm.trans h)
  · exact atEdge_of_over? (by decide) (by decide) ((matchEnd?_closeBracket c).symm.trans h)
  · exact hliteral h
  · exact hliteral h

end Places

/-! ## Words in a text -/

/-- **Words are tagged exactly.**  For every grammar with rules and word keywords of its own whose
letters count as they are, a step in the root state where a word begins and no rule opens makes one
token of the whole word, and it is a keyword exactly if it is one of the grammar's.

In the interface definition language every word that a run comes to in the root state is such a word.
So in every text the keywords are whole words of the language's keywords, and no other whole word of
these is text: among the tokens of the lexer, and when neighbours are joined. -/
theorem wordsTaggedExactly :
    (∀ (g : Grammar) (l : Lexer) (flags : Pattern.Flags) (table : Table) (ready : ReadyTable),
      g.lexer = none → g.caseInsensitive = false → g.KeywordsAreWords → g.compile = .ok l →
      l.body = .table flags table → table.ready flags = .ok ready →
      ∀ (nested : Nested) (c : Cursor) (below : List String), c.BeginsWord →
        (∀ r ∈ g.rules, g.matchEnd? r.opening c = none) →
          step ready nested ⟨c, rootState :: below⟩ =
            .ok (some ([.ofChars (g.wordKind c.word) c.word],
              ⟨c.skip isWord, rootState :: below⟩))) ∧
    ∃ (l : Lexer) (flags : Pattern.Flags) (table : Table) (ready : ReadyTable),
      grammar.compile = .ok l ∧ l.body = .table flags table ∧ table.ready flags = .ok ready ∧
      ∀ text : List Char,
        (∀ (nested : Nested) (n : Nat) (before : List Token) (m : Config),
          Steps ready nested n (startOf text) before m → m.stack.head? = some rootState →
          m.cursor.after.head?.any isWord = true →
            m.cursor.BeginsWord ∧ step ready nested m =
              .ok (some ([.ofChars (wordKind m.cursor.word) m.cursor.word],
                ⟨m.cursor.skip isWord, m.stack⟩))) ∧
        ∃ tokens, l.tokens text = .ok tokens ∧ Token.textOf tokens = text ∧
          Token.TagsWords keywords tokens ∧ Token.TagsWords keywords (Token.merge tokens) := by
  constructor
  · intro g l flags table ready hlexer hcase hwords hcompile hbody hready nested c below hc hrules
    obtain ⟨ht, rfl⟩ := Grammar.table_of_body hlexer hcompile hbody
    exact Grammar.step_of_word ht hready hcase hwords hc hrules nested below
  obtain ⟨table, ready, ht, hr, hof⟩ := Grammar.exists_ready tagsKnown patternsRead
  obtain ⟨l, hl, hbody, hretag⟩ := Grammar.exists_ruleLexer rfl ht
  refine ⟨l, grammar.scanFlags, table, ready, hl, hbody, hr, fun text => ⟨?_, ?_⟩⟩
  · intro nested n before m hsteps hroot hword
    have hbegins := Grammar.beginsWord_of_steps ht hr rfl keywordsAreWords spansEndAtEdges hsteps
      hroot hword
    obtain ⟨c, stack⟩ := m
    obtain ⟨below, rfl⟩ := List.head?_eq_some_iff.1 hroot
    have hstep := Grammar.step_of_word ht hr rfl keywordsAreWords hbegins (matchEnd?_of_word hword)
      nested below
    rw [wordKind_eq] at hstep
    exact ⟨hbegins, hstep⟩
  · obtain ⟨-, tokens, -, -, -, -, hscan, -⟩ := exists_cover hof openingsTake text
    obtain ⟨htext, htagged⟩ := Grammar.allTagged_of_reads rfl keywordsAreWords spansEndAtEdges
      tagsKnown ((Grammar.scan_eq_ok_iff ht hr).1 hscan)
    refine ⟨tokens, ?_, htext, htagged.tagsWords.congr fun w => mem_keywords,
      (Token.tagsWords_merge htagged).congr fun w => mem_keywords⟩
    rw [Lexer.tokens_of_ready hbody hretag hr, hscan]
    rfl

/-- The text `api A` begins with a word that is a keyword, and the first step takes it. -/
theorem wordsTaggedExactly_api : ∃ (l : Lexer) (table : Table) (ready : ReadyTable),
    grammar.lexer = none ∧ grammar.caseInsensitive = false ∧ grammar.KeywordsAreWords ∧
      grammar.compile = .ok l ∧ l.body = .table grammar.scanFlags table ∧
      table.ready grammar.scanFlags = .ok ready ∧ (Cursor.start "api A".toList).BeginsWord ∧
      (∀ r ∈ grammar.rules, grammar.matchEnd? r.opening (Cursor.start "api A".toList) = none) ∧
      step ready (nestedOf ready "api A".toList) (startOf "api A".toList) =
        .ok (some ([⟨.keyword, "api"⟩],
          ⟨(Cursor.start "api A".toList).past 3, [rootState]⟩)) := by
  obtain ⟨table, ready, ht, hr, -⟩ := Grammar.exists_ready tagsKnown patternsRead
  obtain ⟨l, hl, hbody, -⟩ := Grammar.exists_ruleLexer rfl ht
  have hbegins : (Cursor.start "api A".toList).BeginsWord := ⟨rfl, by decide⟩
  have hrules := matchEnd?_of_word hbegins.after
  have hstep := wordsTaggedExactly.1 grammar l _ table ready rfl rfl keywordsAreWords hl hbody hr
    (nestedOf ready "api A".toList) _ [] hbegins hrules
  refine ⟨l, table, ready, rfl, rfl, keywordsAreWords, hl, hbody, hr, hbegins, hrules, ?_⟩
  rw [wordKind_eq] at hstep
  exact hstep

end Idl
end Language
end DocHighlighter
