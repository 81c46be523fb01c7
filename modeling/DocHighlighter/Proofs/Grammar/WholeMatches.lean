/-
# Rules that make tokens of whole matches

A rule of a grammar makes one token of its match, or none if the match is empty; it
never splits a match or leaves it out (`Action.IsWhole`).  So whatever a grammar's
patterns match, the tokens of a text are that text when the scan comes to its end
(`Grammar.textOf_of_tokens`).  Nothing is assumed about the tags and patterns of the
grammar but that it has a lexer.

The proof is an induction on the tree of rules for the table, and one on the steps of
the run for the text.
-/

import DocHighlighter.Proofs.Engine.Full

namespace DocHighlighter

open Scanner

namespace Scanner

/-- An action makes a token of the whole match, or none of an empty one. -/
inductive Action.IsWhole : Action → Prop
  | token (kind : Kind) : IsWhole (.token kind)
  | nonempty (kind : Kind) : IsWhole (.nonempty kind)

/-- The tokens that such an action gives are the match. -/
theorem Action.IsWhole.textOf_eq {a : Action} (h : a.IsWhole) {nested : Nested}
    {c : Text.Cursor} {m : Pattern.Match} {tokens : List Token}
    (htokens : a.tokens nested c m = .ok tokens) : Token.textOf tokens = c.upTo m.stop := by
  cases h with
  | token kind =>
    obtain rfl := Except.ok.inj htokens
    simp [Token.textOf, Token.ofChars]
  | nonempty kind =>
    simp only [Action.tokens] at htokens
    split at htokens
    · next hempty =>
      obtain rfl := Except.ok.inj htokens
      exact (List.isEmpty_iff.1 hempty).symm
    · obtain rfl := Except.ok.inj htokens
      simp [Token.textOf, Token.ofChars]

/-- All rules of a table make tokens of whole matches. -/
def Table.IsWhole (t : Table) : Prop :=
  ∀ s ∈ t, ∀ r ∈ s.2, r.action.IsWhole

/-- All rules of a ready table make tokens of whole matches. -/
def ReadyTable.IsWhole (t : ReadyTable) : Prop :=
  ∀ s ∈ t, ∀ r ∈ s.2, r.action.IsWhole

/-- Reading the patterns leaves the actions as they are. -/
theorem Table.IsWhole.ready {t : Table} (h : t.IsWhole) {flags : Pattern.Flags}
    {ready : ReadyTable} (hr : t.ready flags = .ok ready) : ready.IsWhole := by
  intro rs hrs rr hrr
  obtain ⟨s, hs, -, hrules⟩ := (exists_mem_of_forall₂ (Table.forall₂_of_ready_eq_ok hr)).2 rs hrs
  obtain ⟨r, hmem, hready⟩ := (exists_mem_of_forall₂ hrules).2 rr hrr
  rw [(Rule.ready_eq_ok.1 hready).2.1]
  exact h s hs r hmem

variable {t : ReadyTable} {nested : Nested}

theorem ReadyTable.IsWhole.of_mem_active (h : t.IsWhole) {stack : List String} {r : ReadyRule}
    (hr : r ∈ t.active stack) : r.action.IsWhole := by
  cases stack with
  | nil => cases hr
  | cons top rest =>
    simp only [ReadyTable.active, ReadyTable.rules] at hr
    cases hlookup : t.lookup top with
    | none => simp [hlookup] at hr
    | some rules =>
      obtain ⟨before, after, rfl, -⟩ := List.lookup_eq_some_iff.1 hlookup
      rw [hlookup] at hr
      exact h (top, rules) (by simp) r hr

/-- **A step takes the text of its tokens,** neither more nor less. -/
theorem ReadyTable.IsWhole.step (h : t.IsWhole) {k k' : Config} {tokens : List Token}
    (hstep : step t nested k = .ok (some (tokens, k'))) :
    k.cursor.after = Token.textOf tokens ++ k'.cursor.after := by
  have hlead := leadsTo_of_step hstep
  cases made_of_step hstep with
  | matched hfirst htokens =>
    rw [(h.of_mem_active (matchAt?_of_firstMatch? hfirst).1).textOf_eq htokens]
    exact hlead.after_eq
  | newline _ hnext =>
    rw [Text.Cursor.after_eq_of_next? hnext]
    rfl
  | other _ hnext =>
    rw [Text.Cursor.after_eq_of_next? hnext]
    simp [Token.textOf]

theorem after_eq_nil_of_step {k : Config} (h : Scanner.step t nested k = .ok none) :
    k.cursor.after = [] :=
  Text.Cursor.after_eq_nil_of_next? (next?_eq_none_of_step h).2

/-- A run that comes to an end has taken the rest of the text. -/
theorem ReadyTable.IsWhole.run (h : t.IsWhole) {fuel : Nat} {k : Config}
    {acc tokens : List Token} (hrun : run t nested fuel k acc = .ok tokens) :
    Token.textOf tokens = Token.textOf acc.reverse ++ k.cursor.after := by
  induction fuel generalizing k acc with
  | zero => cases hrun
  | succ fuel ih =>
    obtain ⟨hend, rfl⟩ | ⟨more, k', hstep, hrest⟩ := run_eq_ok_cases hrun
    · rw [after_eq_nil_of_step hend, List.append_nil]
    · rw [ih hrest, h.step hstep, List.reverse_append, List.reverse_reverse,
        Token.textOf_append, List.append_assoc]

/-- A scan that comes to an end gives tokens that are the text. -/
theorem ReadyTable.IsWhole.scan (h : t.IsWhole) {text : List Char} {tokens : List Token}
    (hscan : scan t text = .ok tokens) : Token.textOf tokens = text := by
  rw [Scanner.scan, scanFrom] at hscan
  exact h.run hscan

end Scanner

/-! ## The tables of grammars -/

mutual

/-- The rules that a rule compiles to make tokens of whole matches. -/
theorem SpanRule.isWhole_of_compile {state : String} {opening : Scanner.Rule} {states : Table} :
    ∀ {r : SpanRule}, r.compile state = .ok (opening, states) →
      opening.action.IsWhole ∧ states.IsWhole
  | ⟨tag, begins, closing, inner⟩, h => by
    obtain ⟨kind, -, ⟨rfl, rfl, rfl⟩ | ⟨written, openings, more, rfl, hinner, rfl, rfl⟩⟩ :=
      SpanRule.compile_eq_ok h
    · exact ⟨.token kind, List.forall_mem_nil _⟩
    · obtain ⟨hopenings, hmore⟩ := SpanRule.isWhole_of_compileFrom hinner
      refine ⟨.token kind, fun s hs r hr => ?_⟩
      rcases List.mem_append.1 hs with hs | hs
      · exact hmore s hs r hr
      · obtain rfl := List.mem_singleton.1 hs
        rcases List.mem_append.1 hr with hr | hr
        · exact hopenings r hr
        · rcases List.mem_cons.1 hr with rfl | hr
          · exact .nonempty kind
          · obtain rfl := List.mem_singleton.1 hr
            exact .token kind

/-- So do those that rules side by side compile to. -/
theorem SpanRule.isWhole_of_compileFrom {state : String} {place : Nat}
    {openings : List Scanner.Rule} {states : Table} :
    ∀ {rules : List SpanRule}, SpanRule.compileFrom state place rules = .ok (openings, states) →
      (∀ o ∈ openings, o.action.IsWhole) ∧ states.IsWhole
  | [], h => by
    obtain ⟨rfl, rfl⟩ := Prod.mk.inj (Except.ok.inj h)
    exact ⟨List.forall_mem_nil _, List.forall_mem_nil _⟩
  | r :: rules, h => by
    obtain ⟨opening, own, others, more, hfirst, hrest, rfl, rfl⟩ :=
      SpanRule.compileFrom_cons_eq_ok h
    obtain ⟨hopening, hstates⟩ := SpanRule.isWhole_of_compile hfirst
    obtain ⟨hopenings, hmore⟩ := SpanRule.isWhole_of_compileFrom hrest
    refine ⟨fun o ho => ?_, fun s hs => ?_⟩
    · rcases List.mem_cons.1 ho with rfl | ho
      · exact hopening
      · exact hopenings o ho
    · exact (List.mem_append.1 hs).elim (hstates s) (hmore s)

end

theorem Grammar.isWhole_of_mem_keywordRules {g : Grammar} :
    ∀ r ∈ g.keywordRules, r.action.IsWhole := by
  intro r hr
  unfold keywordRules at hr
  split at hr
  · cases hr
  · obtain rfl := List.mem_singleton.1 hr
    exact .token .keyword

theorem Grammar.isWhole_of_mem_plainRules : ∀ r ∈ plainRules, r.action.IsWhole := by
  intro r hr
  rcases List.mem_cons.1 hr with rfl | hr
  · exact .token .whitespace
  · rcases List.mem_cons.1 hr with rfl | hr
    · exact .token .text
    · obtain rfl := List.mem_singleton.1 hr
      exact .token .text

/-- The table of a grammar makes tokens of whole matches. -/
theorem Grammar.isWhole_table {g : Grammar} {table : Table} (h : g.table = .ok table) :
    table.IsWhole := by
  obtain ⟨openings, states, hrules, rfl⟩ := Grammar.table_eq_ok h
  obtain ⟨hopenings, hstates⟩ := SpanRule.isWhole_of_compileFrom hrules
  intro s hs r hr
  rcases List.mem_append.1 hs with hs | hs
  · exact hstates s hs r hr
  · obtain rfl := List.mem_singleton.1 hs
    rcases List.mem_append.1 hr with hr | hr
    · exact (List.mem_append.1 hr).elim (hopenings r) (isWhole_of_mem_keywordRules r)
    · exact isWhole_of_mem_plainRules r hr

/-- **The tokens that a grammar with rules of its own gives for a text are that text,** whatever
its patterns match. -/
theorem Grammar.textOf_of_tokens {g : Grammar} (hlexer : g.lexer = none) {l : Lexer}
    (hcompile : g.compile = .ok l) {text : List Char} {tokens : List Token}
    (htokens : l.tokens text = .ok tokens) : Token.textOf tokens = text := by
  obtain ⟨table, htable, hbody, hretag⟩ := Grammar.exists_table_of_compile hlexer hcompile
  cases hr : table.ready g.scanFlags with
  | error fault =>
    unfold Lexer.tokens at htokens
    rw [hbody] at htokens
    simp [hr, bind, Except.bind] at htokens
  | ok ready =>
    rw [Lexer.tokens_of_ready hbody hretag hr] at htokens
    cases hscan : scan ready text with
    | error fault =>
      rw [hscan] at htokens
      cases htokens
    | ok scanned =>
      rw [hscan] at htokens
      obtain rfl := Except.ok.inj htokens
      exact ((Grammar.isWhole_table htable).ready hr).scan hscan

end DocHighlighter
