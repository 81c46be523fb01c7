/-
# Keywords among the tokens of a grammar

Outside of all spans a word is read as a whole, if it is read from its beginning on.  So the keywords
are the whole words among the grammar's keywords, if a reader that comes out of a span is never in
the middle of a word (`Grammar.SpansEndAtEdges`).

That a reader is not there (`Grammar.OutsideAtEdge`) is kept by each thing that it does
(`Grammar.ReadStep`), so it holds of every place that it comes to, and of every place in the root
state that a run of the lexer comes to (`Grammar.beginsWord_of_steps`).  Token by token this tags the
words of a text as it should be (`Grammar.allTagged_of_reads`).

| a reader | where it then is |
|---|---|
| opens a rule | inside of it, or outside behind the opening, if the rule has no closing |
| reads plain text | outside, at an edge if it was at one |
| closes a rule | outside behind the closing, if no other rule is open |
| reads one character of a span | inside |
-/

import DocHighlighter.Proofs.Grammar.Spans
import DocHighlighter.Proofs.Grammar.Words
import DocHighlighter.Proofs.Token.Tagging

namespace DocHighlighter

open Scanner
open Text (Cursor isBlank isWord)

/-! ## The rules at any depth -/

mutual

/-- A rule inside of a rule at any depth is one at some depth too. -/
theorem SpanRule.mem_all_inner {r r' : SpanRule} (hinner : r' ∈ r.inner) :
    ∀ {r₀ : SpanRule}, r ∈ r₀.all → r' ∈ r₀.all
  | ⟨_, _, _, inner⟩, h => by
    refine List.mem_cons_of_mem _ ?_
    rcases List.mem_cons.1 h with rfl | h
    · exact SpanRule.mem_allOf_of_mem hinner
    · exact SpanRule.mem_allOf_inner hinner h

theorem SpanRule.mem_allOf_inner {r r' : SpanRule} (hinner : r' ∈ r.inner) :
    ∀ {rules : List SpanRule}, r ∈ SpanRule.allOf rules → r' ∈ SpanRule.allOf rules
  | [], h => absurd h List.not_mem_nil
  | _ :: _, h => by
    rcases List.mem_append.1 h with h | h
    · exact List.mem_append_left _ (SpanRule.mem_all_inner hinner h)
    · exact List.mem_append_right _ (SpanRule.mem_allOf_inner hinner h)

theorem SpanRule.mem_allOf_of_mem {r : SpanRule} :
    ∀ {rules : List SpanRule}, r ∈ rules → r ∈ SpanRule.allOf rules
  | [], h => absurd h List.not_mem_nil
  | r' :: rules, h => by
    rcases List.mem_cons.1 h with rfl | h
    · exact List.mem_append_left _ (SpanRule.mem_all_self r)
    · exact List.mem_append_right _ (SpanRule.mem_allOf_of_mem h)

end

/-- Spans are neither keywords nor text. -/
theorem SpanRule.kind_ne {r : SpanRule} (h : (SpanRule.kindOf? r.tag).isSome) :
    r.kind ≠ .keyword ∧ r.kind ≠ .text := by
  obtain ⟨kind, hkind⟩ := Option.isSome_iff_exists.1 h
  rw [SpanRule.kind_eq hkind]
  unfold SpanRule.kindOf? at hkind
  split at hkind <;> simp only [Option.some.injEq, reduceCtorEq] at hkind <;> subst hkind <;> decide

namespace Grammar

variable {g : Grammar} {c d : Cursor} {opened : List SpanRule} {r : SpanRule}
  {first tokens : List Token} {k k' : TreeReader}

/-- What can be opened is one of the grammar's rules, at some depth. -/
theorem Opened.mem_allRules (h : g.Opened opened) (hr : r ∈ g.candidates opened) :
    r ∈ g.allRules := by
  induction opened generalizing r with
  | nil => exact SpanRule.mem_allOf_of_mem hr
  | cons r' opened ih => exact SpanRule.mem_allOf_inner hr (ih h.2.2 h.1)

/-! ## What a reader does -/

/-- What a reader does at a place with some rules open: the tokens, and where it then stands. -/
inductive ReadStep (g : Grammar) (c : Cursor) : List SpanRule → List Token → TreeReader → Prop
  | opens {opened : List SpanRule} {r : SpanRule} {d : Cursor} (hr : r ∈ g.candidates opened)
      (h : g.matchEnd? r.opening c = some d) :
      g.ReadStep c opened [.ofChars r.kind (c.upTo d)]
        ⟨d, if r.closing.isSome then r :: opened else opened⟩
  | plain {kind : Kind} {d : Cursor} (h : g.plain? c = some (kind, d)) :
      g.ReadStep c [] [.ofChars kind (c.upTo d)] ⟨d, []⟩
  | closes {opened : List SpanRule} {r : SpanRule} {written : String} {d : Cursor}
      (hclosing : r.closing = some written) (h : g.matchEnd? written c = some d) :
      g.ReadStep c (r :: opened)
        (if (c.upTo d).isEmpty then [] else [.ofChars r.kind (c.upTo d)]) ⟨d, opened⟩
  | goesOn {opened : List SpanRule} {r : SpanRule} {a : Char} {d : Cursor}
      (h : c.next? = some (a, d)) :
      g.ReadStep c (r :: opened) [.ofChars r.kind (c.upTo d)] ⟨d, r :: opened⟩

/-- A reader does one of these, or the text is over. -/
theorem readStep_or_end (h : g.Opened opened) :
    (g.read? ⟨c, opened⟩ = none ∧ c.after = []) ∨
      ∃ first k', g.read? ⟨c, opened⟩ = some (first, k') ∧ g.ReadStep c opened first k' := by
  cases hopening : g.opening? (g.candidates opened) c with
  | some found =>
    obtain ⟨r, d⟩ := found
    obtain ⟨hr, hmatch⟩ := mem_of_opening? hopening
    exact .inr ⟨_, _, read?_of_opening hopening, .opens hr hmatch⟩
  | none =>
    cases opened with
    | nil =>
      have hread := read?_of_root hopening
      cases hplain : g.plain? c with
      | none =>
        have hnext : c.next? = none := Option.map_eq_none_iff.1 (Option.or_eq_none_iff.1 hplain).2
        exact .inl ⟨hread.trans (by rw [hplain]; rfl), Cursor.after_eq_nil_of_next? hnext⟩
      | some found => exact .inr ⟨_, _, hread.trans (by rw [hplain]; rfl), .plain hplain⟩
    | cons r opened =>
      obtain ⟨written, hwritten⟩ := Option.isSome_iff_exists.1 h.2.1
      have hread := read?_of_span opened hopening hwritten
      cases hmatch : g.matchEnd? written c with
      | some d => exact .inr ⟨_, _, hread.trans (by rw [hmatch]; rfl), .closes hwritten hmatch⟩
      | none =>
        cases hnext : c.next? with
        | none =>
          exact .inl ⟨hread.trans (by rw [hmatch, hnext]; rfl), Cursor.after_eq_nil_of_next? hnext⟩
        | some next => exact .inr ⟨_, _, hread.trans (by rw [hmatch, hnext]; rfl), .goesOn hnext⟩

theorem readStep_of_read? (h : g.Opened opened) (hread : g.read? ⟨c, opened⟩ = some (first, k')) :
    g.ReadStep c opened first k' := by
  obtain ⟨hnone, -⟩ | ⟨first', k'', hread', hstep⟩ := readStep_or_end (c := c) h
  · rw [hread] at hnone
    cases hnone
  · obtain ⟨rfl, rfl⟩ := Prod.mk.inj (Option.some.inj (hread.symm.trans hread'))
    exact hstep

/-- What is read is the text up to where the reader then stands, in one token or in none. -/
theorem ReadStep.covers (h : g.ReadStep c opened first k') :
    c.LeadsTo k'.cursor ∧
      ((first = [] ∧ c.upTo k'.cursor = []) ∨
        ∃ t, first = [t] ∧ t.text.toList = c.upTo k'.cursor) := by
  cases h with
  | opens hr h => exact ⟨matchEnd?_leadsTo h, .inr ⟨_, rfl, String.toList_ofList⟩⟩
  | plain h => exact ⟨leadsTo_of_plain? h, .inr ⟨_, rfl, String.toList_ofList⟩⟩
  | @closes _ _ _ d hclosing h =>
    refine ⟨matchEnd?_leadsTo h, ?_⟩
    cases hempty : (c.upTo d).isEmpty with
    | true => exact .inl ⟨rfl, List.isEmpty_iff.1 hempty⟩
    | false => exact .inr ⟨_, rfl, String.toList_ofList⟩
  | goesOn h => exact ⟨.of_next? h, .inr ⟨_, rfl, String.toList_ofList⟩⟩

/-! ## Outside of all spans -/

/-- What the rules of a grammar that can be opened outside of all spans end with leads to no place in
the middle of a word. -/
def SpansEndAtEdges (g : Grammar) : Prop :=
  ∀ r ∈ g.rules, ∀ c d, g.matchEnd? (r.closing.getD r.opening) c = some d → d.AtEdge

/-- A reader with a chain of open rules that is not in the middle of a word if none is open. -/
structure OutsideAtEdge (g : Grammar) (k : TreeReader) : Prop where
  opened : g.Opened k.opened
  atEdge : k.opened = [] → k.cursor.AtEdge

theorem outsideAtEdge_start (g : Grammar) (text : List Char) :
    g.OutsideAtEdge ⟨Cursor.start text, []⟩ :=
  ⟨trivial, fun _ => Cursor.atEdge_start text⟩

/-- What is read outside of all spans is tagged as it should be. -/
theorem isTagged_of_plain? (hcase : g.caseInsensitive = false) (hwords : g.KeywordsAreWords)
    {kind : Kind} (hedge : c.AtEdge) (h : g.plain? c = some (kind, d)) :
    (Token.ofChars kind (c.upTo d)).IsTagged g.keywords c.before.reverse d.after := by
  obtain ⟨hword, rfl, rfl⟩ | ⟨-, rfl, rfl⟩ | ⟨a, hnext, ha, rfl⟩ :=
    plain?_cases hcase hwords hedge h
  · have hwhole : Token.IsWholeWord c.before.reverse (String.ofList c.word).toList
        (c.skip isWord).after := by
      rw [String.toList_ofList]
      exact ⟨hword.word_ne_nil, fun a ha => List.mem_takeWhile_imp ha,
        by rw [List.getLast?_reverse]; exact hword.before, Cursor.head?_after_skip isWord c⟩
    rw [Cursor.upTo_skip]
    exact ⟨fun hkind => ⟨hwhole, wordKind_eq_keyword_iff.1 hkind⟩,
      fun hkind => .inl ⟨hwhole, wordKind_eq_text_iff.1 hkind⟩⟩
  · exact Token.isTagged_of_ne nofun nofun
  · rw [Cursor.upTo_of_next? hnext]
    exact ⟨nofun, fun _ => .inr ⟨a, String.toList_ofList, ha⟩⟩

section Edges

variable (hcase : g.caseInsensitive = false) (hwords : g.KeywordsAreWords)
  (hspans : g.SpansEndAtEdges)

include hcase hwords hspans

/-- **Whatever a reader does,** it does not come out of a span in the middle of a word. -/
theorem OutsideAtEdge.read? (hk : g.OutsideAtEdge k) (hread : g.read? k = some (first, k')) :
    g.OutsideAtEdge k' := by
  refine ⟨hk.opened.read? hread, fun hnil => ?_⟩
  obtain ⟨c, opened⟩ := k
  have hopened := hk.opened
  cases readStep_of_read? hopened hread with
  | @opens _ r d hr h =>
    dsimp only at hnil
    split at hnil
    · cases hnil
    · next hclosing =>
      obtain rfl := hnil
      refine hspans r hr c d ?_
      rwa [Option.not_isSome_iff_eq_none.1 hclosing]
  | plain h => exact atEdge_of_plain? hcase hwords (hk.atEdge rfl) h
  | @closes _ r written d hclosing h =>
    obtain rfl : _ = [] := hnil
    refine hspans r hopened.1 c d ?_
    rwa [hclosing]
  | goesOn h => cases hnil

theorem OutsideAtEdge.readsTo (hk : g.OutsideAtEdge k) (h : g.ReadsTo k tokens k') :
    g.OutsideAtEdge k' := by
  induction h with
  | refl => exact hk
  | next hread _ ih => exact ih (hk.read? hcase hwords hspans hread)

/-! ## The tokens -/

variable (htags : g.TagsKnown)

include htags

omit hspans in
/-- **Each token that a reader makes is tagged as it should be.** -/
theorem ReadStep.isTagged (hk : g.OutsideAtEdge ⟨c, opened⟩) (h : g.ReadStep c opened first k')
    {t : Token} (ht : t ∈ first) :
    t.IsTagged g.keywords c.before.reverse k'.cursor.after := by
  have hspan : ∀ {r : SpanRule} {opened : List SpanRule} {text : List Char}, g.Opened opened →
      r ∈ g.candidates opened →
        (Token.ofChars r.kind text).IsTagged g.keywords c.before.reverse k'.cursor.after := by
    intro r opened text hopened hr
    obtain ⟨hkeyword, htext⟩ := SpanRule.kind_ne (htags r (hopened.mem_allRules hr))
    exact Token.isTagged_of_ne hkeyword htext
  cases h with
  | opens hr h =>
    obtain rfl := List.mem_singleton.1 ht
    exact hspan hk.opened hr
  | plain h =>
    obtain rfl := List.mem_singleton.1 ht
    exact isTagged_of_plain? hcase hwords (hk.atEdge rfl) h
  | closes hclosing h =>
    split at ht
    · cases ht
    · obtain rfl := List.mem_singleton.1 ht
      exact hspan hk.opened.2.2 hk.opened.1
  | goesOn h =>
    obtain rfl := List.mem_singleton.1 ht
    exact hspan hk.opened.2.2 hk.opened.1

/-- The tokens that a reader makes on its way to the end of the text are what is left of it, and are
all tagged as they should be. -/
theorem tagged_of_readsFrom (hk : g.OutsideAtEdge k) (h : g.ReadsFrom k tokens) :
    Token.textOf tokens = k.cursor.after ∧ ∀ before t after, tokens = before ++ t :: after →
      t.IsTagged g.keywords (k.cursor.before.reverse ++ Token.textOf before)
        (Token.textOf after) := by
  induction h with
  | @done k hend =>
    obtain ⟨-, hafter⟩ | ⟨first, k', hread, -⟩ := readStep_or_end (c := k.cursor) hk.opened
    · exact ⟨hafter.symm, fun before t after h => by cases before <;> cases h⟩
    · exact absurd (hend.symm.trans hread) nofun
  | @next k k' first rest hread _ ih =>
    have hstep := readStep_of_read? hk.opened hread
    obtain ⟨hlead, hfirst⟩ := hstep.covers
    obtain ⟨htext, htagged⟩ := ih (hk.read? hcase hwords hspans hread)
    have hbefore : k'.cursor.before.reverse = k.cursor.before.reverse ++ k.cursor.upTo k'.cursor := by
      rw [hlead.before_eq, List.reverse_append, List.reverse_reverse]
    rw [hbefore] at htagged
    rw [Token.textOf_append, htext, hlead.after_eq]
    obtain ⟨rfl, hnil⟩ | ⟨t, rfl, ht⟩ := hfirst
    · rw [hnil, List.append_nil] at htagged
      exact ⟨by rw [hnil]; rfl, htagged⟩
    · refine ⟨by simp [Token.textOf, ht], fun before u after hsplit => ?_⟩
      cases before with
      | nil =>
        obtain ⟨rfl, rfl⟩ := List.cons.inj hsplit
        have hfirst := hstep.isTagged hcase hwords htags hk (List.mem_singleton_self t)
        rw [← htext] at hfirst
        simpa [Token.textOf] using hfirst
      | cons t' before =>
        obtain ⟨rfl, hrest⟩ := List.cons.inj hsplit
        rw [Token.textOf_cons, ht, ← List.append_assoc]
        exact htagged before u after hrest

/-- **The words of a text are tagged as they should be,** if the reader comes out of no span in the
middle of a word. -/
theorem allTagged_of_reads {text : List Char} (h : g.Reads text tokens) :
    Token.textOf tokens = text ∧ Token.AllTagged g.keywords tokens :=
  tagged_of_readsFrom hcase hwords hspans htags (g.outsideAtEdge_start text) h

end Edges

/-! ## Runs of the lexer -/

section Runs

variable {table : Table} {ready : ReadyTable} {nested : Nested} {n : Nat} {m m' : Config}

/-- A run that a reader follows comes to no place that the reader does not come to. -/
theorem Follows.exists_readsTo (ht : g.table = .ok table) (hr : table.ready g.scanFlags = .ok ready)
    (hm : g.Follows m k) (h : Steps ready nested n m tokens m') :
    ∃ k', g.ReadsTo k tokens k' ∧ g.Follows m' k' := by
  induction h generalizing k with
  | refl => exact ⟨k, .refl k, hm⟩
  | head hstep _ ih =>
    obtain ⟨-, hend⟩ | ⟨tokens, m₁, k₁, hread, hstep', hm₁⟩ := hm.step nested ht hr
    · rw [hstep] at hend
      cases hend
    · obtain ⟨rfl, rfl⟩ := Prod.mk.inj (Option.some.inj (Except.ok.inj (hstep.symm.trans hstep')))
      obtain ⟨k', hreads, hm'⟩ := ih hm₁
      exact ⟨k', .next hread hreads, hm'⟩

/-- In the root state no rule is open. -/
theorem Follows.opened_eq_nil (h : g.Follows m k) (hroot : m.stack.head? = some rootState) :
    k.cursor = m.cursor ∧ k.opened = [] := by
  obtain @⟨c, path, opened, hchain⟩ := h
  have hpath : path = [] := stateName_injective (Option.some.inj hroot)
  subst hpath
  cases hchain
  exact ⟨rfl, rfl⟩

/-- **Each word that a run comes to in the root state** is one from its beginning on. -/
theorem beginsWord_of_steps (ht : g.table = .ok table) (hr : table.ready g.scanFlags = .ok ready)
    (hcase : g.caseInsensitive = false) (hwords : g.KeywordsAreWords)
    (hspans : g.SpansEndAtEdges) {text : List Char}
    (h : Steps ready nested n (startOf text) tokens m) (hroot : m.stack.head? = some rootState)
    (hword : m.cursor.after.head?.any isWord = true) : m.cursor.BeginsWord := by
  have hstart : g.Follows (startOf text) ⟨Cursor.start text, []⟩ := .here _ .root
  obtain ⟨k, hreads, hm⟩ := hstart.exists_readsTo ht hr h
  obtain ⟨hcursor, hnil⟩ := hm.opened_eq_nil hroot
  have hk := (g.outsideAtEdge_start text).readsTo hcase hwords hspans hreads
  exact (hcursor ▸ hk.atEdge hnil).beginsWord hword

end Runs

end Grammar
end DocHighlighter
