/-
# The ready table of a grammar

Once its patterns are read, every rule of a grammar's table plays one of three
parts (`Role`): it makes a token and stays in its state, it makes a token and
enters a longer-named state of the table, or it closes a span and makes a token
only of a match that is not empty.  Closing happens outside of the root state.
And no state is at a loss while there is text (`IsOf.covers`).

`Grammar.exists_ready` says that a grammar whose tags are known and whose patterns
can be read has such a table.
-/

import DocHighlighter.Proofs.Grammar.Table
import DocHighlighter.Proofs.Pattern.Runs
import DocHighlighter.Proofs.Scanner.Ready

namespace DocHighlighter

open Scanner

/-- The patterns of a grammar's table that make tokens: those of openings, of keywords, and those
that are built in. -/
def Grammar.MakesTokens (g : Grammar) (p : Pattern) : Prop :=
  (∃ r ∈ g.allRules, Pattern.read g.scanFlags r.opening = .ok p) ∨
    (g.keywords ≠ [] ∧ p = ⟨.wholeWord (g.keywords.map String.toList), g.scanFlags⟩) ∨
    ∃ e ∈ [.anything, .many (.ofCategory .blank), .many (.ofCategory .word), .any],
      p = ⟨e, g.scanFlags⟩

/-- No opening pattern of a grammar, at any depth, and no keyword matches the empty text, at any
place of any text. -/
structure Grammar.OpeningsTake (g : Grammar) : Prop where
  neverEmpty : ∀ r ∈ g.allRules, ∀ p, Pattern.read g.scanFlags r.opening = .ok p → p.NeverEmpty
  keywords : "" ∉ g.keywords

theorem Grammar.OpeningsTake.neverEmpty_of_makesTokens {g : Grammar} (h : g.OpeningsTake)
    {p : Pattern} (hp : g.MakesTokens p) : p.NeverEmpty := by
  rcases hp with ⟨r, hr, hread⟩ | ⟨-, rfl⟩ | ⟨e, he, rfl⟩
  · exact h.neverEmpty r hr p hread
  · refine Pattern.neverEmpty_of_takes (Pattern.Expr.wholeWord_takes _ fun hmem => h.keywords ?_)
    obtain ⟨word, hword, hempty⟩ := List.mem_map.1 hmem
    exact String.toList_eq_nil_iff.1 hempty ▸ hword
  · simp only [List.mem_cons, List.not_mem_nil, or_false] at he
    obtain rfl | rfl | rfl | rfl := he <;>
      exact Pattern.neverEmpty_of_least _ (by decide)

/-- The part that a rule plays in a state of the table of a grammar. -/
inductive Role (g : Grammar) (names : List String) (state : String) : ReadyRule → Prop
  | leaf {p : Pattern} {kind : Kind} (hp : g.MakesTokens p) (hkind : kind ≠ .error) :
      Role g names state ⟨p, .token kind, []⟩
  | opening {p : Pattern} {kind : Kind} {inner : String} (hp : g.MakesTokens p)
      (hkind : kind ≠ .error) (hinner : inner ∈ names) (hlt : state.length < inner.length) :
      Role g names state ⟨p, .token kind, [.enter inner]⟩
  | closing {p : Pattern} {kind : Kind} (hkind : kind ≠ .error) (hstate : state ≠ rootState) :
      Role g names state ⟨p, .nonempty kind, [.pop]⟩

/-- A ready table has the shape of a grammar's table. -/
structure Scanner.ReadyTable.IsOf (t : ReadyTable) (g : Grammar) : Prop where
  root_mem : rootState ∈ t.map Prod.fst
  roles : ∀ s ∈ t, ∀ r ∈ s.2, Role g (t.map Prod.fst) s.1 r
  /-- Some rule of every state matches while there is text. -/
  covers : ∀ s ∈ t, ∀ c : Text.Cursor, c.after ≠ [] → ∃ r ∈ s.2, (r.pattern.matchAt? c).isSome

theorem SpanRule.ne_error_of_kindOf? {tag : String} {kind : Kind}
    (h : SpanRule.kindOf? tag = some kind) : kind ≠ .error := by
  unfold SpanRule.kindOf? at h
  split at h <;> simp only [Option.some.injEq, reduceCtorEq] at h <;> subst h <;> decide

/-! ## The table of a grammar -/

/-- The table of a grammar: the states of its spans, and the root. -/
theorem Grammar.table_shape {g : Grammar} {table : Table} (h : g.table = .ok table) :
    ∃ openings states,
      table = states ++ [(rootState, openings ++ g.keywordRules ++ Grammar.plainRules)] ∧
      (∀ o ∈ openings, IsOpening g.allRules (states.map Prod.fst) rootState o) ∧
      AreSpanStates g.allRules (rootState.length + 1) states := by
  obtain ⟨openings, states, hc, rfl⟩ := Grammar.table_eq_ok h
  exact ⟨openings, states, rfl, SpanRule.compileFrom_shape hc⟩

/-- A grammar whose tags are known has a table. -/
theorem Grammar.exists_table {g : Grammar} (h : g.TagsKnown) : ∃ table, g.table = .ok table := by
  obtain ⟨answer, hc⟩ := SpanRule.exists_compileFrom rootState 0 g.rules h
  exact ⟨_, by simp only [Grammar.table, hc]; rfl⟩

section Reads

variable {g : Grammar} {names : List String} {state : String}

theorem IsOpening.exists_reads (hread : g.PatternsRead) {o : Scanner.Rule}
    (h : IsOpening g.allRules names state o) : ∃ p, o.pattern.Reads g.scanFlags p := by
  obtain ⟨r, hr, kind, -, ho⟩ := h
  obtain ⟨p, hp⟩ := (hread r hr).1
  refine ⟨p, ?_⟩
  obtain rfl | ⟨inner, -, -, rfl⟩ := ho <;> exact hp

/-- An opening, once read, makes a token and stays or goes down. -/
theorem IsOpening.role {o : Scanner.Rule} (h : IsOpening g.allRules names state o) {rr : ReadyRule}
    (hr : o.ready g.scanFlags state = .ok rr) : Role g names state rr := by
  obtain ⟨r, hmem, kind, hkind, ho⟩ := h
  have hne := SpanRule.ne_error_of_kindOf? hkind
  obtain ⟨p, action, moves⟩ := rr
  obtain ⟨hp, ha, hm⟩ := Rule.ready_eq_ok.1 hr
  dsimp only at hp ha hm
  obtain rfl | ⟨inner, hinner, hlt, rfl⟩ := ho
  · obtain rfl : action = .token kind := ha
    obtain rfl : moves = [] := hm
    exact .leaf (.inl ⟨r, hmem, hp⟩) hne
  · obtain rfl : action = .token kind := ha
    obtain rfl : moves = [.enter inner] := hm
    exact .opening (.inl ⟨r, hmem, hp⟩) hne hinner hlt

theorem role_of_built {e : Pattern.Expr} {kind : Kind} (hkind : kind ≠ .error)
    (he : g.MakesTokens ⟨e, g.scanFlags⟩) {rr : ReadyRule}
    (hr : Rule.ready g.scanFlags state ⟨.built e, .token kind, []⟩ = .ok rr) :
    Role g names state rr := by
  obtain ⟨p, action, moves⟩ := rr
  obtain ⟨rfl, rfl, rfl⟩ := Rule.ready_eq_ok.1 hr
  exact .leaf he hkind

/-- A rule that ends the state of a span, once read, closes the span or stays in it. -/
theorem role_of_mem_lastRules {kind : Kind} (hkind : kind ≠ .error) {written : String}
    (hstate : state ≠ rootState) {r : Scanner.Rule} (hmem : r ∈ lastRules kind written)
    {rr : ReadyRule} (hr : r.ready g.scanFlags state = .ok rr) : Role g names state rr := by
  rw [lastRules, List.mem_cons, List.mem_singleton] at hmem
  obtain rfl | rfl := hmem
  · obtain ⟨p, action, moves⟩ := rr
    obtain ⟨-, rfl, rfl⟩ := Rule.ready_eq_ok.1 hr
    exact .closing hkind hstate
  · exact role_of_built hkind (.inr (.inr ⟨_, List.mem_cons_self, rfl⟩)) hr

/-- A rule of the root state that is no opening makes a token where an expression that is built in
matches. -/
theorem exists_built_of_mem_rootRules {r : Scanner.Rule}
    (hmem : r ∈ g.keywordRules ++ Grammar.plainRules) :
    ∃ e kind, kind ≠ .error ∧ g.MakesTokens ⟨e, g.scanFlags⟩ ∧
      r = ⟨.built e, .token kind, []⟩ := by
  rcases List.mem_append.1 hmem with hmem | hmem
  · unfold Grammar.keywordRules at hmem
    split at hmem
    · simp at hmem
    · next hne =>
      exact ⟨_, _, by decide, .inr (.inl ⟨by simpa using hne, rfl⟩), List.mem_singleton.1 hmem⟩
  · simp only [Grammar.plainRules, List.mem_cons, List.not_mem_nil, or_false] at hmem
    obtain rfl | rfl | rfl := hmem <;>
      exact ⟨_, _, by decide, .inr (.inr ⟨_, by simp, rfl⟩), rfl⟩

/-- A rule of the root state that is no opening, once read, stays there. -/
theorem role_of_mem_rootRules {r : Scanner.Rule}
    (hmem : r ∈ g.keywordRules ++ Grammar.plainRules) {rr : ReadyRule}
    (hr : r.ready g.scanFlags state = .ok rr) : Role g names state rr := by
  obtain ⟨e, kind, hkind, he, rfl⟩ := exists_built_of_mem_rootRules hmem
  exact role_of_built hkind he hr

end Reads

/-- Reading a rule that is built in gives its expression, under the flags. -/
theorem exists_ready_of_built {flags : Pattern.Flags} {state : String} {rules : List Scanner.Rule}
    {rs : List ReadyRule}
    (h : List.Forall₂ (fun r rr => Rule.ready flags state r = .ok rr) rules rs)
    {e : Pattern.Expr} {action : Action} {moves : List Move}
    (hmem : ⟨.built e, action, moves⟩ ∈ rules) :
    ∃ r ∈ rs, r.pattern = ⟨e, flags⟩ := by
  obtain ⟨rr, hrr, hr⟩ := (exists_mem_of_forall₂ h).1 _ hmem
  exact ⟨rr, hrr, (Rule.ready_eq_ok.1 hr).1⟩

/-- Some plain rule matches wherever there is text: blanks take a newline, any one character takes
all else. -/
theorem exists_isSome_of_plainRules {g : Grammar} {state : String} {rules : List Scanner.Rule}
    {rs : List ReadyRule}
    (h : List.Forall₂ (fun r rr => Rule.ready g.scanFlags state r = .ok rr) rules rs)
    (hsub : Grammar.plainRules ⊆ rules) {c d : Text.Cursor} {a : Char}
    (hc : c.next? = some (a, d)) : ∃ r ∈ rs, (r.pattern.matchAt? c).isSome := by
  by_cases ha : a = '\n'
  · obtain ⟨r, hr, hp⟩ := exists_ready_of_built h (hsub List.mem_cons_self)
    refine ⟨r, hr, ?_⟩
    rw [hp]
    have hblank : Pattern.Category.blank.holds false '\n' = true := by decide
    exact Pattern.isSome_matchAt?_many hc (ha ▸ hblank)
  · obtain ⟨r, hr, hp⟩ := exists_ready_of_built h
      (hsub (List.mem_cons_of_mem _ (List.mem_cons_of_mem _ List.mem_cons_self)))
    refine ⟨r, hr, ?_⟩
    rw [hp]
    exact Pattern.isSome_matchAt?_any hc ha

theorem exists_next?_of_after_ne_nil {c : Text.Cursor} (h : c.after ≠ []) :
    ∃ a d, c.next? = some (a, d) := by
  obtain ⟨before, after, pos, remaining, hp, hr⟩ := c
  cases after with
  | nil => exact absurd rfl h
  | cons a rest => exact ⟨a, _, rfl⟩

/-- **The ready table of a grammar has the shape of one.** -/
theorem Grammar.isOf_of_ready {g : Grammar} {table : Table} {ready : ReadyTable}
    (ht : g.table = .ok table) (hr : table.ready g.scanFlags = .ok ready) : ready.IsOf g := by
  obtain ⟨openings, states, rfl, ho, hs⟩ := Grammar.table_shape ht
  have hnames := Table.names_eq_of_ready hr
  have hall := exists_mem_of_forall₂ (Table.forall₂_of_ready_eq_ok hr)
  have hsub : states.map Prod.fst ⊆ ready.map Prod.fst := by
    rw [hnames, List.map_append]
    exact List.subset_append_left ..
  refine ⟨?_, ?_, ?_⟩
  · rw [hnames]
    simp
  · rintro ⟨state, rs⟩ hmem rr hrr
    obtain ⟨⟨state', rules⟩, hmem', hst, hrules⟩ := hall.2 _ hmem
    obtain rfl : state = state' := hst
    obtain ⟨r, hr₀, hread⟩ := (exists_mem_of_forall₂ hrules).2 rr hrr
    rcases List.mem_append.1 hmem' with hmem' | hmem'
    · obtain ⟨⟨r', -, kind, written, inner, hkind, -, hinner, hrs⟩, hlen⟩ := hs _ hmem'
      dsimp only at hrs hlen hinner hr₀ hread
      rw [hrs] at hr₀
      rcases List.mem_append.1 hr₀ with hr₀ | hr₀
      · exact ((hinner r hr₀).mono (List.Subset.refl _) hsub).role hread
      · refine role_of_mem_lastRules (SpanRule.ne_error_of_kindOf? hkind) ?_ hr₀ hread
        rintro rfl
        exact absurd hlen (by decide)
    · obtain ⟨rfl, rfl⟩ := Prod.mk.inj (List.mem_singleton.1 hmem')
      rw [List.append_assoc] at hr₀
      rcases List.mem_append.1 hr₀ with hr₀ | hr₀
      · exact ((ho r hr₀).mono (List.Subset.refl _) hsub).role hread
      · exact role_of_mem_rootRules hr₀ hread
  · rintro ⟨state, rs⟩ hmem c hc
    obtain ⟨⟨state', rules⟩, hmem', hst, hrules⟩ := hall.2 _ hmem
    obtain rfl : state = state' := hst
    obtain ⟨a, d, hnext⟩ := exists_next?_of_after_ne_nil hc
    rcases List.mem_append.1 hmem' with hmem' | hmem'
    · obtain ⟨⟨r', -, kind, written, inner, -, -, -, hrs⟩, -⟩ := hs _ hmem'
      dsimp only at hrs hrules
      rw [hrs] at hrules
      obtain ⟨r, hr₀, hp⟩ := exists_ready_of_built hrules
        (List.mem_append_right _ (List.mem_cons_of_mem _ List.mem_cons_self))
      exact ⟨r, hr₀, by rw [hp, Pattern.matchAt?_anything rfl, hnext]; rfl⟩
    · obtain ⟨rfl, rfl⟩ := Prod.mk.inj (List.mem_singleton.1 hmem')
      exact exists_isSome_of_plainRules hrules (List.subset_append_right ..) hnext

theorem Grammar.exists_reads_of_mem_rootRules {g : Grammar} {r : Scanner.Rule}
    (hmem : r ∈ g.keywordRules ++ Grammar.plainRules) : ∃ p, r.pattern.Reads g.scanFlags p := by
  obtain ⟨e, kind, -, -, rfl⟩ := exists_built_of_mem_rootRules hmem
  exact ⟨_, rfl⟩

/-- A grammar whose tags are known and whose patterns can be read has a ready table. -/
theorem Grammar.exists_ready {g : Grammar} (htags : g.TagsKnown) (hread : g.PatternsRead) :
    ∃ table ready, g.table = .ok table ∧ table.ready g.scanFlags = .ok ready ∧ ready.IsOf g := by
  obtain ⟨table, ht⟩ := g.exists_table htags
  obtain ⟨openings, states, rfl, ho, hs⟩ := Grammar.table_shape ht
  have hreads : ∀ s ∈ states ++
      [(rootState, openings ++ g.keywordRules ++ Grammar.plainRules)],
      ∀ r ∈ s.2, ∃ p, r.pattern.Reads g.scanFlags p := by
    rintro ⟨state, rules⟩ hmem r hr
    rcases List.mem_append.1 hmem with hmem | hmem
    · obtain ⟨⟨r', hr', kind, written, inner, -, hclosing, hinner, hrs⟩, -⟩ := hs _ hmem
      dsimp only at hrs hr
      rw [hrs] at hr
      rcases List.mem_append.1 hr with hr | hr
      · exact (hinner r hr).exists_reads hread
      · rw [lastRules, List.mem_cons, List.mem_singleton] at hr
        obtain rfl | rfl := hr
        · exact (hread r' hr').2 written hclosing
        · exact ⟨_, rfl⟩
    · obtain ⟨rfl, rfl⟩ := Prod.mk.inj (List.mem_singleton.1 hmem)
      rw [List.append_assoc] at hr
      rcases List.mem_append.1 hr with hr | hr
      · exact (ho r hr).exists_reads hread
      · exact Grammar.exists_reads_of_mem_rootRules hr
  obtain ⟨ready, hr⟩ := Table.exists_ready hreads
  exact ⟨_, ready, ht, hr, isOf_of_ready ht hr⟩

/-! ## The lexer of a grammar -/

/-- A grammar with rules of its own has a lexer, which scans by its table. -/
theorem Grammar.exists_ruleLexer {g : Grammar} (hlexer : g.lexer = none) {table : Table}
    (ht : g.table = .ok table) :
    ∃ l, g.compile = .ok l ∧ l.body = .table g.scanFlags table ∧ l.retag = Token.kind := by
  have hc : g.compile = g.ruleLexer := by simp only [Grammar.compile, hlexer]
  rw [hc, Grammar.ruleLexer, ht]
  exact ⟨_, rfl, rfl, rfl⟩

/-- The lexer of a grammar with rules of its own scans by the table of the grammar. -/
theorem Grammar.exists_table_of_compile {g : Grammar} (hlexer : g.lexer = none) {l : Lexer}
    (hcompile : g.compile = .ok l) :
    ∃ table, g.table = .ok table ∧ l.body = .table g.scanFlags table ∧ l.retag = Token.kind := by
  cases ht : g.table with
  | ok table =>
    obtain ⟨l', hcompile', hbody, hretag⟩ := exists_ruleLexer hlexer ht
    obtain rfl := Except.ok.inj (hcompile.symm.trans hcompile')
    exact ⟨table, rfl, hbody, hretag⟩
  | error fault =>
    have hc : g.compile = g.ruleLexer := by simp only [Grammar.compile, hlexer]
    rw [hc, Grammar.ruleLexer, ht] at hcompile
    cases hcompile

/-- The tokens of a lexer whose table is ready are those of the scan. -/
theorem Lexer.tokens_of_ready {l : Lexer} {flags : Pattern.Flags} {table : Table}
    {ready : ReadyTable} (hbody : l.body = .table flags table) (hretag : l.retag = Token.kind)
    (hr : table.ready flags = .ok ready) (text : List Char) :
    l.tokens text = (scan ready text).mapError LexFault.scan := by
  unfold Lexer.tokens
  rw [hbody, hretag]
  dsimp only
  rw [hr]
  dsimp only
  cases scan ready text with
  | error fault => rfl
  | ok tokens => simp [bind, Except.bind, pure, Except.pure, Except.mapError]

end DocHighlighter
