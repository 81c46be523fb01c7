/-
# The stack of a run by the table of a grammar

Wherever a run by the table of a grammar comes to stand, the states on the stack are those of rules
that are open, one inside the other, with the root below them all (`Grammar.StackOf`).  Every step
keeps it so: a run goes through a text beside a reader of the tree (`Grammar.Follows.step`), and the
rules that the reader has open are on one path of the tree.

So the stack is no higher than the tree is deep (`StackOf.length_le`).  What is found at a place
takes at most one state off the stack, and never the root; and as long as there is text, something
is found, so no text is passed over as an error (`Grammar.stackSound_of_steps`).
-/

import DocHighlighter.Proofs.Grammar.Extents

namespace DocHighlighter

open Scanner

/-! ## The depth of rules -/

mutual

/-- How deep rules stand inside a rule, the rule itself included. -/
def SpanRule.depth : SpanRule → Nat
  | ⟨_, _, _, inner⟩ => SpanRule.depthOf inner + 1

/-- How deep rules stand inside of rules that stand side by side, these included. -/
def SpanRule.depthOf : List SpanRule → Nat
  | [] => 0
  | r :: rules => max r.depth (SpanRule.depthOf rules)

end

/-- The depth of the tree of a grammar's rules. -/
def Grammar.depth (g : Grammar) : Nat :=
  SpanRule.depthOf g.rules

theorem SpanRule.depth_eq (r : SpanRule) : r.depth = SpanRule.depthOf r.inner + 1 := by
  cases r
  rfl

theorem SpanRule.depth_le_depthOf {r : SpanRule} {rules : List SpanRule} (h : r ∈ rules) :
    r.depth ≤ SpanRule.depthOf rules := by
  induction rules with
  | nil => cases h
  | cons r' rules ih =>
    rcases List.mem_cons.1 h with rfl | h
    · exact Nat.le_max_left ..
    · exact Nat.le_trans (ih h) (Nat.le_max_right ..)

namespace Grammar

variable {g : Grammar} {table : Table} {path : List Nat} {opened : List SpanRule}
  {stack : List String}

/-! ## Stacks of open rules -/

/-- A stack of states, top first, of a path in the tree, with the rules on the path: the root alone,
or the state of a rule on the stack of the rule around it.  That rule has a closing and stands at
its place among the inner rules of the one around it, and the table has its openings, its closing
and its text under the name of its state. -/
inductive StackOf (g : Grammar) (table : Table) :
    List Nat → List SpanRule → List String → Prop
  | root (hrules : table.lookup rootState =
        some (SpanRule.openingRules [] 0 g.rules ++ (g.keywordRules ++ plainRules))) :
      g.StackOf table [] [] [rootState]
  | inner {i : Nat} {path : List Nat} {r : SpanRule} {written : String} {opened : List SpanRule}
      {stack : List String} (h : g.StackOf table path opened stack)
      (hr : (g.candidates opened)[i]? = some r) (hclosing : r.closing = some written)
      (hrules : table.lookup (stateName (i :: path)) =
        some (SpanRule.openingRules (i :: path) 0 r.inner ++ lastRules r.kind written)) :
      g.StackOf table (i :: path) (r :: opened) (stateName (i :: path) :: stack)

/-- The states of a chain of open rules are such a stack. -/
theorem Chain.stackOf (ht : g.table = .ok table) (h : g.Chain path opened) :
    g.StackOf table path opened (statesOf path) := by
  induction h with
  | root => exact .root (lookup_stateName ht .root)
  | @inner i path r opened h hr hclosing ih =>
    obtain ⟨written, hwritten⟩ := Option.isSome_iff_exists.1 hclosing
    have hrules := lookup_stateName ht (h.inner hr hclosing)
    rw [candidates, laterRules, hwritten, Option.getD_some] at hrules
    exact .inner ih hr hwritten hrules

theorem StackOf.length_eq (h : g.StackOf table path opened stack) :
    stack.length = opened.length + 1 := by
  induction h with
  | root => rfl
  | inner _ _ _ _ ih => exact congrArg (· + 1) ih

/-- Each open rule leaves less of the tree's depth for the rules that can be opened in it. -/
theorem StackOf.length_add_depthOf_le (h : g.StackOf table path opened stack) :
    opened.length + SpanRule.depthOf (g.candidates opened) ≤ g.depth := by
  induction h with
  | root => exact Nat.le_of_eq (Nat.zero_add _)
  | @inner i path r written opened stack _ hr _ _ ih =>
    have hdepth := SpanRule.depth_le_depthOf (List.mem_of_getElem? hr)
    rw [SpanRule.depth_eq] at hdepth
    rw [List.length_cons, candidates]
    omega

/-- **A stack is no higher than the tree is deep,** not counting the root. -/
theorem StackOf.length_le (h : g.StackOf table path opened stack) :
    stack.length ≤ 1 + g.depth := by
  have hdepth := h.length_add_depthOf_le
  rw [h.length_eq]
  omega

/-! ## What is found under a stack -/

/-- What holds of a run by the table of a grammar wherever it stands. -/
structure StackSound (g : Grammar) (table : Table) (ready : ReadyTable) (k : Config) : Prop where
  /-- On the stack are the root and the states of open rules, each inside the one below it. -/
  nested : ∃ path opened, g.StackOf table path opened k.stack
  height : k.stack.length ≤ 1 + g.depth
  /-- What takes a state off the stack takes one, which is not the root. -/
  keepsRoot : ∀ r m, firstMatch? (ready.active k.stack) k.cursor = some (r, m) →
    .pop ∈ r.moves → r.moves = [.pop] ∧ 1 < k.stack.length
  /-- While there is text, some rule matches. -/
  finds : k.cursor.after ≠ [] →
    ∃ r m, firstMatch? (ready.active k.stack) k.cursor = some (r, m)

end Grammar

section Found

variable {g : Grammar} {t : ReadyTable} {k k' : Config} {tokens : List Token}

/-- A step of a run finds a rule, and if that one takes a state off the stack, another one is left
below. -/
theorem Scanner.StepOf.exists_firstMatch? (h : StepOf t g k tokens k') :
    ∃ r m, firstMatch? (t.active k.stack) k.cursor = some (r, m) ∧
      (.pop ∈ r.moves → r.moves = [.pop] ∧ 1 < k.stack.length) := by
  cases h with
  | stays _ _ hm => exact ⟨_, _, hm, fun hpop => absurd hpop List.not_mem_nil⟩
  | opens _ _ hm _ => exact ⟨_, _, hm, fun hpop => nomatch List.mem_singleton.1 hpop⟩
  | closes _ hm hstack hrest =>
    refine ⟨_, _, hm, fun _ => ⟨rfl, ?_⟩⟩
    rw [hstack, List.length_cons]
    exact Nat.succ_lt_succ (List.length_pos_of_ne_nil hrest.ne_nil)

/-- What is found under a stack of states: something while there is text, and nothing that takes the
root off. -/
theorem Scanner.Stacked.found (hof : t.IsOf g) (hk : Stacked t k.stack) :
    (∀ r m, firstMatch? (t.active k.stack) k.cursor = some (r, m) →
      .pop ∈ r.moves → r.moves = [.pop] ∧ 1 < k.stack.length) ∧
    (k.cursor.after ≠ [] → ∃ r m, firstMatch? (t.active k.stack) k.cursor = some (r, m)) := by
  -- What is found does not depend on how parts are scanned.
  obtain ⟨hafter, hnone, -⟩ | ⟨tokens, k', -, hstep⟩ := @step_cases t g (fun _ _ => .ok []) k hof hk
  · refine ⟨fun r m hfound => ?_, fun htext => absurd hafter htext⟩
    rw [hnone] at hfound
    cases hfound
  · obtain ⟨r, m, hfound, hpop⟩ := hstep.exists_firstMatch?
    refine ⟨fun r' m' hfound' => ?_, fun _ => ⟨r, m, hfound⟩⟩
    obtain ⟨rfl, rfl⟩ := Prod.mk.inj (Option.some.inj (hfound.symm.trans hfound'))
    exact hpop

end Found

namespace Grammar

variable {g : Grammar} {l : Lexer} {flags : Pattern.Flags} {table : Table} {ready : ReadyTable}
  {nested : Nested} {text : List Char} {n : Nat} {tokens : List Token} {k : Config}

/-- **The stack of a run by the table of a grammar,** after any steps over any text. -/
theorem stackSound_of_steps (hlexer : g.lexer = none) (hcompile : g.compile = .ok l)
    (hbody : l.body = .table flags table) (hready : table.ready flags = .ok ready)
    (h : Steps ready nested n (startOf text) tokens k) : g.StackSound table ready k := by
  obtain ⟨table', ht, hbody', -⟩ := exists_table_of_compile hlexer hcompile
  obtain ⟨rfl, rfl⟩ := Lexer.Body.table.inj (hbody.symm.trans hbody')
  have hstart : g.Follows (startOf text) ⟨Text.Cursor.start text, []⟩ := .here _ .root
  obtain ⟨w, -, @⟨c, path, opened, hchain⟩⟩ := hstart.exists_readsTo ht hready h
  have hof := isOf_of_ready ht hready
  have hstack := hchain.stackOf ht
  obtain ⟨hkeeps, hfinds⟩ := (h.stacked hof (.root hof.root_mem)).found hof
  exact ⟨⟨path, opened, hstack⟩, hstack.length_le, hkeeps, hfinds⟩

/-- A run of `Grammar.nestedSpans` inside the inner span: the stack is as high as it can be. -/
theorem stackSound_nestedSpans : ∃ l table ready tokens k,
    nestedSpans.lexer = none ∧ nestedSpans.compile = .ok l ∧
      l.body = .table nestedSpans.scanFlags table ∧
      table.ready nestedSpans.scanFlags = .ok ready ∧
      Steps ready (nestedOf ready "<#c".toList) 2 (startOf "<#c".toList) tokens k ∧
      k.stack = ["root.0.1", "root.0", "root"] ∧ k.stack.length = 1 + nestedSpans.depth ∧
      nestedSpans.StackSound table ready k := by
  have hrun : (do
      let table ← nestedSpans.table.toOption
      let ready ← (table.ready nestedSpans.scanFlags).toOption
      let (_, k₁) ← (step ready (nestedOf ready "<#c".toList) (startOf "<#c".toList)).toOption.join
      let (_, k₂) ← (step ready (nestedOf ready "<#c".toList) k₁).toOption.join
      return k₂.stack) = some ["root.0.1", "root.0", "root"] := by decide +kernel
  simp only [Option.bind_eq_bind, Option.bind_eq_some_iff, Option.join_eq_some_iff] at hrun
  obtain ⟨table, ht, ready, hr, ⟨_, k₁⟩, hstep₁, ⟨_, k₂⟩, hstep₂, hstack⟩ := hrun
  replace hstack := Option.some.inj hstack
  obtain ⟨l, hl, hbody, -⟩ := exists_ruleLexer (g := nestedSpans) rfl (eq_ok_of_toOption ht)
  have hready := eq_ok_of_toOption hr
  have hsteps := Steps.head (eq_ok_of_toOption hstep₁)
    (.head (eq_ok_of_toOption hstep₂) (.refl k₂))
  refine ⟨l, table, ready, _, k₂, rfl, hl, hbody, hready, hsteps, hstack, ?_,
    stackSound_of_steps rfl hl hbody hready hsteps⟩
  rw [hstack]
  decide

end Grammar
end DocHighlighter
