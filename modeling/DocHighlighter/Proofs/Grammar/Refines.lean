/-
# The lexer of a grammar reads by the tree of its rules

A run of the compiled lexer and a reader of the tree go through a text side by side
(`Grammar.Follows`): they stand at one place, and the states on the stack are those of the open
rules.  What the rules of a state do at a place (`Scanner.outcome?`) is what the reader does, so the
two make the same step (`Grammar.Follows.step`), and the tokens are the same
(`Grammar.tokens_iff_reads`).

| of a state | matches where |
|---|---|
| the openings | the reader opens a rule (`outcome?_openingRules`) |
| the rules behind them, in the root | the reader reads plain text (`outcome?_rootRules`) |
| the rules behind them, in a span | the reader closes the rule or reads a character |
-/

import DocHighlighter.Proofs.Grammar.Names
import DocHighlighter.Proofs.Grammar.Stalling

namespace DocHighlighter
namespace Scanner

open Text (Cursor)

/-- Where the match of a rule's pattern ends, if it matches at a place. -/
def Source.matchEnd? (flags : Pattern.Flags) (c : Cursor) : Source → Option Cursor
  | .written text =>
    match Pattern.read flags text with
    | .ok p => (p.matchAt? c).map Pattern.Match.stop
    | .error _ => none
  | .built e => ((⟨e, flags⟩ : Pattern).matchAt? c).map Pattern.Match.stop

/-- What some rules do at a place: what the first that matches makes of its match, how it moves, and
where the match ends. -/
def outcome? (flags : Pattern.Flags) (rules : List Rule) (c : Cursor) :
    Option (Action × List Move × Cursor) :=
  rules.findSome? fun r => (r.pattern.matchEnd? flags c).map (r.action, r.moves, ·)

variable {flags : Pattern.Flags} {state : String} {c d : Cursor}

@[simp]
theorem outcome?_nil : outcome? flags [] c = none :=
  rfl

theorem outcome?_cons (r : Rule) (rules : List Rule) :
    outcome? flags (r :: rules) c =
      ((r.pattern.matchEnd? flags c).map (r.action, r.moves, ·)).or (outcome? flags rules c) := by
  rw [outcome?, List.findSome?_cons]
  cases r.pattern.matchEnd? flags c <;> rfl

theorem outcome?_append (flags : Pattern.Flags) (rules rules' : List Rule) (c : Cursor) :
    outcome? flags (rules ++ rules') c =
      (outcome? flags rules c).or (outcome? flags rules' c) :=
  List.findSome?_append

theorem Source.matchEnd?_of_reads {source : Source} {p : Pattern} (h : source.Reads flags p) :
    source.matchEnd? flags c = (p.matchAt? c).map Pattern.Match.stop := by
  cases source with
  | written text =>
    have hread : Pattern.read flags text = .ok p := h
    rw [matchEnd?, hread]
  | built e =>
    obtain rfl : p = ⟨e, flags⟩ := h
    rfl

/-- Rules with their patterns read do what the rules do. -/
theorem map_firstMatch? {rules : List Rule} {ready : List ReadyRule}
    (h : List.Forall₂ (fun r rr => Rule.ready flags state r = .ok rr) rules ready) :
    ((firstMatch? ready c).map fun found => (found.1.action, found.1.moves, found.2.stop)) =
      outcome? flags rules c := by
  induction h with
  | nil => rfl
  | @cons r rr rules ready hr _ ih =>
    obtain ⟨hread, haction, hmoves⟩ := Rule.ready_eq_ok.1 hr
    rw [outcome?, List.findSome?_cons, Source.matchEnd?_of_reads hread, ← haction, ← hmoves,
      firstMatch?, List.findSome?_cons]
    cases rr.pattern.matchAt? c with
    | some m => rfl
    | none => exact ih

section Step

variable {table : Table} {ready : ReadyTable} {nested : Nested} {rules : List Rule}
  {stack : List String} {moves : List Move} {kind : Kind}

/-- What the rules of the top state do is what the first match of a step does. -/
theorem map_firstMatch?_active (stack : List String) (hready : table.ready flags = .ok ready)
    (hrules : table.lookup state = some rules) :
    ((firstMatch? (ready.active (state :: stack)) c).map fun found =>
      (found.1.action, found.1.moves, found.2.stop)) = outcome? flags rules c :=
  map_firstMatch? (Table.ready_rules hready hrules)

/-- What the first match of a step does is the outcome at its place. -/
theorem exists_firstMatch?_of_outcome? {action : Action} (stack : List String)
    (hready : table.ready flags = .ok ready) (hrules : table.lookup state = some rules)
    (h : outcome? flags rules c = some (action, moves, d)) :
    ∃ r m, firstMatch? (ready.active (state :: stack)) c = some (r, m) ∧ r.action = action ∧
      r.moves = moves ∧ m.stop = d := by
  rw [← map_firstMatch?_active stack hready hrules] at h
  obtain ⟨⟨r, m⟩, hfirst, hsame⟩ := Option.map_eq_some_iff.1 h
  simp only [Prod.mk.injEq] at hsame
  exact ⟨r, m, hfirst, hsame⟩

/-- A step where a rule makes a token. -/
theorem step_token (hready : table.ready flags = .ok ready)
    (hrules : table.lookup state = some rules)
    (h : outcome? flags rules c = some (.token kind, moves, d)) :
    step ready nested ⟨c, state :: stack⟩ = .ok (some ([.ofChars kind (c.upTo d)],
      ⟨d, moves.foldl (fun s m => m.apply s) (state :: stack)⟩)) := by
  obtain ⟨r, m, hfirst, haction, rfl, rfl⟩ :=
    exists_firstMatch?_of_outcome? stack hready hrules h
  rw [step, hfirst]
  dsimp only
  rw [haction]
  rfl

/-- A step where a rule makes a token unless it matches the empty text. -/
theorem step_nonempty (hready : table.ready flags = .ok ready)
    (hrules : table.lookup state = some rules)
    (h : outcome? flags rules c = some (.nonempty kind, moves, d)) :
    step ready nested ⟨c, state :: stack⟩ =
      .ok (some (if (c.upTo d).isEmpty then [] else [.ofChars kind (c.upTo d)],
        ⟨d, moves.foldl (fun s m => m.apply s) (state :: stack)⟩)) := by
  obtain ⟨r, m, hfirst, haction, rfl, rfl⟩ :=
    exists_firstMatch?_of_outcome? stack hready hrules h
  rw [step, hfirst]
  dsimp only
  rw [haction]
  dsimp only [Action.tokens]
  split <;> rfl

/-- At the end of a text, where no rule matches, a run ends. -/
theorem step_end (hready : table.ready flags = .ok ready)
    (hrules : table.lookup state = some rules) (h : outcome? flags rules c = none)
    (hend : c.next? = none) : step ready nested ⟨c, state :: stack⟩ = .ok none := by
  rw [← map_firstMatch?_active stack hready hrules] at h
  rw [step, Option.map_eq_none_iff.1 h]
  dsimp only
  rw [hend]

end Step

end Scanner

open Scanner
open Text (Cursor)

namespace Grammar

variable {g : Grammar} {c d : Cursor}

/-! ## What the rules of a state do -/

theorem matchEnd?_written (g : Grammar) (written : String) (c : Cursor) :
    (Source.written written).matchEnd? g.scanFlags c = g.matchEnd? written c :=
  rfl

theorem opening?_cons (g : Grammar) (r : SpanRule) (rules : List SpanRule) (c : Cursor) :
    g.opening? (r :: rules) c =
      ((g.matchEnd? r.opening c).map (r, ·)).or (g.opening? rules c) := by
  rw [opening?, List.findSome?_cons]
  cases g.matchEnd? r.opening c <;> rfl

/-- **The openings do what the reader does** when it opens a rule, and enter the state of it. -/
theorem outcome?_openingRules (path : List Nat) (place : Nat) (rules : List SpanRule) :
    (g.opening? rules c = none ∧
        outcome? g.scanFlags (SpanRule.openingRules path place rules) c = none) ∨
      ∃ i r d, rules[i]? = some r ∧ g.opening? rules c = some (r, d) ∧
        outcome? g.scanFlags (SpanRule.openingRules path place rules) c = some (.token r.kind,
          if r.closing.isSome then [.enter (stateName ((place + i) :: path))] else [], d) := by
  induction rules generalizing place with
  | nil => exact .inl ⟨rfl, rfl⟩
  | cons r rules ih =>
    rw [opening?_cons, SpanRule.openingRules, outcome?_cons, SpanRule.openingRule, on,
      matchEnd?_written]
    cases g.matchEnd? r.opening c with
    | some d => exact .inr ⟨0, r, d, rfl, rfl, rfl⟩
    | none =>
      obtain ⟨hnone, hnone'⟩ | ⟨i, r', d, hr', hopening, houtcome⟩ := ih (place + 1)
      · exact .inl ⟨hnone, hnone'⟩
      · have hplace : place + (i + 1) = place + 1 + i := by omega
        refine .inr ⟨i + 1, r', d, hr', hopening, ?_⟩
        rw [hplace]
        exact houtcome

/-- **Inside a span,** the rules behind the openings close it, or take one character. -/
theorem outcome?_lastRules (kind : Kind) (written : String) :
    outcome? g.scanFlags (lastRules kind written) c =
      ((g.matchEnd? written c).map fun d => (.nonempty kind, [.pop], d)).or
        (c.next?.map fun next => (.token kind, [], next.2)) := by
  have hany : (Source.built .anything).matchEnd? g.scanFlags c = c.next?.map Prod.snd := by
    rw [Source.matchEnd?, Pattern.matchAt?_anything rfl, Option.map_map]
    rfl
  rw [lastRules, outcome?_cons, outcome?_cons, outcome?_nil, Option.or_none, matchEnd?_written,
    hany, Option.map_map]
  rfl

/-- The keyword rule, if there is one, reads a keyword. -/
theorem outcome?_keywordRules :
    outcome? g.scanFlags g.keywordRules c =
      (g.keywordEnd? c).map fun d => (.token .keyword, [], d) := by
  rw [keywordRules, keywordEnd?]
  split
  · next hnone =>
    have hwords : Pattern.tryOrder (Pattern.inOrder []) = [] :=
      List.eq_nil_iff_forall_not_mem.2 fun w => by
        simp [Pattern.mem_tryOrder, Pattern.mem_inOrder]
    rw [List.isEmpty_iff.1 hnone, List.map_nil, hwords]
    rfl
  · rw [outcome?_cons, outcome?_nil, Option.or_none, Source.matchEnd?,
      Pattern.matchAt?_wholeWord, Option.map_map, Option.map_map]
    rfl

theorem matchEnd?_many (kind : Pattern.Category) :
    (Source.built (.many (.ofCategory kind))).matchEnd? g.scanFlags c =
      c.runEnd? (kind.holds false) := by
  rw [Source.matchEnd?, Pattern.matchAt?_many, Option.map_map]
  exact Option.map_id' ..

theorem holds_blank : Pattern.Category.blank.holds false = Text.isBlank := by
  funext a
  simp [Pattern.Category.holds]

/-- A character that begins no run of blanks is no newline. -/
theorem next?_filter_of_runEnd? (h : c.runEnd? Text.isBlank = none) :
    (c.next?.filter fun next => next.1 != '\n') = c.next? := by
  cases hc : c.next? with
  | none => rfl
  | some next =>
    obtain ⟨a, d⟩ := next
    have ha : a ≠ '\n' := by
      rintro rfl
      rw [Cursor.runEnd?_of_next? hc (by decide)] at h
      cases h
    simp [Option.filter_some, ha]

/-- The plain rules read a run of blanks, a run of word characters, or one other character. -/
theorem outcome?_plainRules :
    outcome? g.scanFlags plainRules c =
      (((c.runEnd? Text.isBlank).map fun d => (.token .whitespace, [], d)).or
        ((c.runEnd? Text.isWord).map fun d => (.token .text, [], d))).or
          (c.next?.map fun next => (.token .text, [], next.2)) := by
  have hany : (Source.built .any).matchEnd? g.scanFlags c =
      (c.next?.filter fun next => next.1 != '\n').map Prod.snd := by
    rw [Source.matchEnd?, Pattern.matchAt?_any rfl, Option.map_map]
    rfl
  have hword : Pattern.Category.word.holds false = Text.isWord := rfl
  rw [plainRules, outcome?_cons, outcome?_cons, outcome?_cons, outcome?_nil, Option.or_none,
    matchEnd?_many, matchEnd?_many, hany, holds_blank, hword, ← Option.or_assoc]
  cases hblank : c.runEnd? Text.isBlank with
  | some d => rfl
  | none =>
    rw [next?_filter_of_runEnd? hblank, Option.map_map]
    rfl

/-- **In the root,** the rules behind the openings read plain text. -/
theorem outcome?_rootRules :
    outcome? g.scanFlags (g.keywordRules ++ plainRules) c =
      (g.plain? c).map fun found => (.token found.1, [], found.2) := by
  rw [outcome?_append, outcome?_keywordRules, outcome?_plainRules, plain?]
  cases g.keywordEnd? c <;> cases c.runEnd? Text.isBlank <;> cases c.runEnd? Text.isWord <;>
    cases c.next? <;> rfl

/-! ## A run and a reader, step by step -/

/-- The states of the rules around the innermost of a path, the root last. -/
def outerStates : List Nat → List String
  | [] => []
  | _ :: path => stateName path :: outerStates path

/-- The states of the rules of a path, innermost first, the root last. -/
def statesOf (path : List Nat) : List String :=
  stateName path :: outerStates path

/-- A run and a reader stand at one place, with the same rules open. -/
inductive Follows (g : Grammar) : Config → TreeReader → Prop
  | here (c : Cursor) {path : List Nat} {opened : List SpanRule} (h : g.Chain path opened) :
      g.Follows ⟨c, statesOf path⟩ ⟨c, opened⟩

/-- A run and a reader make one step alike, or both come to an end. -/
def StepAlike (g : Grammar) (ready : ReadyTable) (nested : Nested) (k : Config)
    (w : TreeReader) : Prop :=
  (g.read? w = none ∧ step ready nested k = .ok none) ∨
    ∃ tokens k' w', g.read? w = some (tokens, w') ∧
      step ready nested k = .ok (some (tokens, k')) ∧ g.Follows k' w'

section Step

variable {table : Table} {ready : ReadyTable} {nested : Nested} {path : List Nat}
  {opened : List SpanRule} {r : SpanRule}

/-- Both open a rule: it is put on the stack if it has a closing. -/
theorem stepAlike_of_opening (ht : g.table = .ok table) (hr : table.ready g.scanFlags = .ok ready)
    (h : g.Chain path opened) {i : Nat} (hi : (g.candidates opened)[i]? = some r)
    (hopening : g.opening? (g.candidates opened) c = some (r, d))
    (houtcome : outcome? g.scanFlags (SpanRule.openingRules path 0 (g.candidates opened)) c =
      some (.token r.kind,
        if r.closing.isSome then [.enter (stateName ((0 + i) :: path))] else [], d)) :
    g.StepAlike ready nested ⟨c, statesOf path⟩ ⟨c, opened⟩ := by
  have hall := outcome?_append g.scanFlags
    (SpanRule.openingRules path 0 (g.candidates opened)) (g.laterRules opened) c
  rw [houtcome, Option.some_or, Nat.zero_add] at hall
  have hstep : step ready nested ⟨c, statesOf path⟩ = _ :=
    step_token hr (lookup_stateName ht h) hall
  refine .inr ⟨_, _, _, read?_of_opening hopening, hstep, ?_⟩
  by_cases hclosing : r.closing.isSome
  · rw [if_pos hclosing, if_pos hclosing]
    exact .here d (h.inner hi hclosing)
  · rw [if_neg hclosing, if_neg hclosing]
    exact .here d h

/-- Outside of all spans both read plain text, or are at the end. -/
theorem stepAlike_of_root (ht : g.table = .ok table) (hr : table.ready g.scanFlags = .ok ready)
    (hopening : g.opening? g.rules c = none)
    (houtcome : outcome? g.scanFlags (SpanRule.openingRules [] 0 g.rules) c = none) :
    g.StepAlike ready nested ⟨c, statesOf []⟩ ⟨c, []⟩ := by
  have hrules := lookup_stateName ht Chain.root
  have hall := outcome?_append g.scanFlags (SpanRule.openingRules [] 0 g.rules) (g.laterRules []) c
  rw [houtcome, Option.none_or, laterRules, outcome?_rootRules] at hall
  have hread := read?_of_root hopening
  cases hplain : g.plain? c with
  | none =>
    rw [hplain] at hall hread
    have hend : c.next? = none := Option.map_eq_none_iff.1 (Option.or_eq_none_iff.1 hplain).2
    exact .inl ⟨hread, step_end hr hrules hall hend⟩
  | some found =>
    rw [hplain] at hall hread
    exact .inr ⟨_, _, _, hread, step_token hr hrules hall, .here found.2 .root⟩

/-- Inside a span both close it, or read one character, or are at the end. -/
theorem stepAlike_of_span (ht : g.table = .ok table) (hr : table.ready g.scanFlags = .ok ready)
    {i : Nat} (h : g.Chain path opened) (hi : (g.candidates opened)[i]? = some r)
    (hclosing : r.closing.isSome) (hopening : g.opening? r.inner c = none)
    (houtcome : outcome? g.scanFlags (SpanRule.openingRules (i :: path) 0 r.inner) c = none) :
    g.StepAlike ready nested ⟨c, statesOf (i :: path)⟩ ⟨c, r :: opened⟩ := by
  obtain ⟨written, hwritten⟩ := Option.isSome_iff_exists.1 hclosing
  have hinner := h.inner hi hclosing
  have hrules := lookup_stateName ht hinner
  rw [candidates, laterRules, hwritten, Option.getD_some] at hrules
  have hall := outcome?_append g.scanFlags
    (SpanRule.openingRules (i :: path) 0 r.inner) (lastRules r.kind written) c
  rw [houtcome, Option.none_or, outcome?_lastRules] at hall
  have hread := read?_of_span opened hopening hwritten
  cases hend : g.matchEnd? written c with
  | some d =>
    rw [hend] at hall hread
    exact .inr ⟨_, _, _, hread, step_nonempty hr hrules hall, .here d h⟩
  | none =>
    cases hnext : c.next? with
    | some next =>
      rw [hend, hnext] at hall hread
      exact .inr ⟨_, _, _, hread, step_token hr hrules hall, .here next.2 hinner⟩
    | none =>
      rw [hend, hnext] at hall hread
      exact .inl ⟨hread, step_end hr hrules hall hnext⟩

/-- **A run and a reader that stand side by side** make the next step alike. -/
theorem Follows.step (nested : Nested) (ht : g.table = .ok table) (hr : table.ready g.scanFlags = .ok ready)
    {k : Config} {w : TreeReader} (h : g.Follows k w) : g.StepAlike ready nested k w := by
  obtain @⟨c, path, opened, hchain⟩ := h
  obtain ⟨hopening, houtcome⟩ | ⟨i, r, d, hi, hopening, houtcome⟩ :=
    outcome?_openingRules (g := g) (c := c) path 0 (g.candidates opened)
  · cases hchain with
    | root => exact stepAlike_of_root ht hr hopening houtcome
    | inner hchain hi hclosing => exact stepAlike_of_span ht hr hchain hi hclosing hopening houtcome
  · exact stepAlike_of_opening ht hr hchain hi hopening houtcome

end Step

/-! ## Whole runs -/

section Runs

variable {table : Table} {ready : ReadyTable} {nested : Nested} {k : Config} {w : TreeReader}
  {tokens : List Token}

/-- A run beside a reader that reads some tokens makes them, and comes to an end. -/
theorem ReadsFrom.exists_steps (nested : Nested) (ht : g.table = .ok table)
    (hr : table.ready g.scanFlags = .ok ready) (h : g.ReadsFrom w tokens) (hk : g.Follows k w) :
    ∃ n k', Steps ready nested n k tokens k' ∧ step ready nested k' = .ok none := by
  induction h generalizing k with
  | done hread =>
    obtain ⟨-, hend⟩ | ⟨tokens, k', w', hread', -⟩ := hk.step nested ht hr
    · exact ⟨0, k, .refl k, hend⟩
    · rw [hread] at hread'
      cases hread'
  | next hread _ ih =>
    obtain ⟨hread', -⟩ | ⟨tokens, k', w', hread', hstep, hk'⟩ := hk.step nested ht hr
    · rw [hread] at hread'
      cases hread'
    · obtain ⟨rfl, rfl⟩ := Prod.mk.inj (Option.some.inj (hread.symm.trans hread'))
      obtain ⟨n, k'', hsteps, hend⟩ := ih hk'
      exact ⟨n + 1, k'', .head hstep hsteps, hend⟩

/-- A reader beside a run that comes to an end reads the tokens of the run. -/
theorem readsFrom_of_steps (ht : g.table = .ok table) (hr : table.ready g.scanFlags = .ok ready)
    {n : Nat} {k' : Config} (h : Steps ready nested n k tokens k')
    (hend : step ready nested k' = .ok none) (hk : g.Follows k w) : g.ReadsFrom w tokens := by
  induction h generalizing w with
  | refl =>
    obtain ⟨hread, -⟩ | ⟨tokens, k', w', -, hstep, -⟩ := hk.step nested ht hr
    · exact .done hread
    · rw [hend] at hstep
      cases hstep
  | head hstep _ ih =>
    obtain ⟨-, hend'⟩ | ⟨tokens, k', w', hread, hstep', hk'⟩ := hk.step nested ht hr
    · rw [hstep] at hend'
      cases hend'
    · obtain ⟨rfl, rfl⟩ :=
        Prod.mk.inj (Option.some.inj (Except.ok.inj (hstep.symm.trans hstep')))
      exact .next hread (ih hend hk')

/-- **The scan of a text by the table of a grammar** gives what a reader of the tree reads. -/
theorem scan_eq_ok_iff (ht : g.table = .ok table) (hr : table.ready g.scanFlags = .ok ready)
    {text : List Char} : scan ready text = .ok tokens ↔ g.Reads text tokens := by
  have hof := isOf_of_ready ht hr
  have hstart : g.Follows (startOf text) ⟨Cursor.start text, []⟩ := .here _ .root
  obtain ⟨-, n, scanned, k, hsteps, -, hend, hscan⟩ | ⟨hstalls, hscan⟩ := scan_cases hof text
  · have hreads := readsFrom_of_steps ht hr hsteps hend hstart
    rw [hscan]
    exact ⟨fun h => Except.ok.inj h ▸ hreads, fun h => congrArg _ (hreads.unique h)⟩
  · rw [hscan]
    refine ⟨fun h => (nomatch h), fun h => ?_⟩
    obtain ⟨n, k, hsteps, hend⟩ :=
      ReadsFrom.exists_steps (nestedOf ready text) ht hr h hstart
    exact absurd (repeats_of_stalls hof (.root hof.root_mem) hstalls)
      (not_repeats_of_ends hsteps hend)

end Runs

end Grammar

/-- The patterns of a lexer's table can be read. -/
def Lexer.Readable (l : Lexer) : Prop :=
  ∀ flags table, l.body = .table flags table → ∃ ready, table.ready flags = .ok ready

/-- **The lexer of a grammar reads by the tree of its rules:** its tokens are those that a reader
with a stack of open rules reads, and it gives any exactly for the texts that such a reader comes to
the end of. -/
theorem Grammar.tokens_eq_ok_iff {g : Grammar} (hlexer : g.lexer = none) {l : Lexer}
    (hcompile : g.compile = .ok l) (text : List Char) (tokens : List Token) :
    l.tokens text = .ok tokens ↔ l.Readable ∧ g.Reads text tokens := by
  obtain ⟨table, ht, hbody, hretag⟩ := exists_table_of_compile hlexer hcompile
  cases hr : table.ready g.scanFlags with
  | ok ready =>
    have hreadable : l.Readable := by
      intro flags table' hbody'
      obtain ⟨rfl, rfl⟩ := Lexer.Body.table.inj (hbody.symm.trans hbody')
      exact ⟨ready, hr⟩
    rw [Lexer.tokens_of_ready hbody hretag hr, ← scan_eq_ok_iff ht hr]
    cases scan ready text with
    | ok scanned => simp [Except.mapError, hreadable]
    | error fault => simp [Except.mapError]
  | error fault =>
    refine ⟨fun htokens => ?_, fun ⟨hreadable, _⟩ => ?_⟩
    · rw [Lexer.tokens, hbody] at htokens
      dsimp only at htokens
      rw [hr] at htokens
      cases htokens
    · obtain ⟨ready, hready⟩ := hreadable _ _ hbody
      rw [hr] at hready
      cases hready

/-- A grammar with a keyword, and with spans inside of a span. -/
def Grammar.nestedSpans : Grammar where
  name := "nested"
  displayName := "Nested"
  keywords := ["let"]
  rules := [⟨"doc", "<", some ">", [
    ⟨"type", "[A-Z]", none, []⟩,
    ⟨"comment", "#", some "(?=>)|$", []⟩]⟩]

/-- An inner span is closed by an empty match, which makes no token, and the outer one goes on. -/
theorem Grammar.reads_nestedSpans :
    nestedSpans.lexer = none ∧ ∃ l, nestedSpans.compile = .ok l ∧ l.Readable ∧
      nestedSpans.Reads "let <B #c> d".toList [
        ⟨.keyword, "let"⟩, ⟨.whitespace, " "⟩, ⟨.stringDoc, "<"⟩, ⟨.keywordType, "B"⟩,
        ⟨.stringDoc, " "⟩, ⟨.commentSingle, "#"⟩, ⟨.commentSingle, "c"⟩, ⟨.stringDoc, ">"⟩,
        ⟨.whitespace, " "⟩, ⟨.text, "d"⟩] := by
  refine ⟨rfl, _, rfl, (tokens_eq_ok_iff rfl rfl _ _).1 (eq_ok_of_toOption ?_)⟩
  decide +kernel

end DocHighlighter
