/-
# How far the spans of a run reach

A step of a run that puts a state on the stack opens a rule (`Grammar.Follows.exists_opened`).  The
span of the rule is what the run makes of the text until the stack is again as low as before, or the
text is over (`Scanner.SpanSteps`).

Where a rule without inner rules is opened, the run goes to the first place where the closing
matches, and all its tokens are of the kind of the rule (`Grammar.Follows.exists_spanSteps`).  Two
sorts of closings say directly where that is.

| the closing matches | the span goes on | is closed |
|---|---|---|
| over a sign | through the first such sign, or to the end of the text | if there is one |
| in front of a class | up to the first character of the class, or to the end | always |
-/

import DocHighlighter.Proofs.Grammar.Tagging
import Mathlib.Data.List.TakeWhile

namespace DocHighlighter

open Scanner
open Text (Cursor)

namespace Text

/-- A text through the first sign of a sort, or all of it if the sign does not come. -/
def through (x : Char) : List Char → List Char
  | [] => []
  | a :: rest => if a = x then [a] else a :: through x rest

/-- Characters before the first sign. -/
theorem through_append {x : Char} {before : List Char} (h : x ∉ before) (text : List Char) :
    through x (before ++ text) = before ++ through x text := by
  induction before with
  | nil => rfl
  | cons a before ih =>
    obtain ⟨ha, hbefore⟩ := not_or.1 fun hmem => h (List.mem_cons.2 hmem)
    rw [List.cons_append, through, if_neg (Ne.symm ha), ih hbefore, List.cons_append]

end Text

/-! ## Spans of a run -/

/-- A run with so many states on the stack, or more, makes steps until there are fewer, or the text
is over. -/
inductive Scanner.SpanSteps (t : ReadyTable) (nested : Nested) (height : Nat) :
    Config → List Token → Config → Prop
  | closed {m : Config} (h : m.stack.length < height) : SpanSteps t nested height m [] m
  | ended {m : Config} (hopen : height ≤ m.stack.length) (h : step t nested m = .ok none) :
      SpanSteps t nested height m [] m
  | next {m m' m'' : Config} {first rest : List Token} (hopen : height ≤ m.stack.length)
      (h : step t nested m = .ok (some (first, m')))
      (hrest : SpanSteps t nested height m' rest m'') :
      SpanSteps t nested height m (first ++ rest) m''

namespace Grammar

variable {g : Grammar} {m m' : Config} {k k' : TreeReader} {rules : List SpanRule}

theorem Follows.cursor_eq (h : g.Follows m k) : m.cursor = k.cursor := by
  obtain ⟨c, hchain⟩ := h
  rfl

/-- There is one state on the stack for each open rule, and the root. -/
theorem Follows.length_stack (h : g.Follows m k) : m.stack.length = k.opened.length + 1 := by
  obtain ⟨c, hchain⟩ := h
  induction hchain with
  | root => rfl
  | inner _ _ _ ih => exact congrArg (· + 1) ih

/-- Rules that can be opened at one place open in different ways. -/
def OpensApart (g : Grammar) : Prop :=
  ∀ opened, g.Opened opened → ((g.candidates opened).map SpanRule.opening).Nodup

theorem Chain.opened {path : List Nat} (h : g.Chain path rules) : g.Opened rules := by
  induction h with
  | root => exact trivial
  | inner _ hr hclosing ih => exact ⟨List.mem_of_getElem? hr, hclosing, ih⟩

/-- The path of a chain is determined if no rule stands beside itself. -/
theorem Chain.path_unique (hapart : g.OpensApart) {path path' : List Nat}
    (h : g.Chain path rules) (h' : g.Chain path' rules) : path = path' := by
  induction h generalizing path' with
  | root =>
    cases h'
    rfl
  | @inner i path r opened h hr hclosing ih =>
    cases h' with
    | @inner j path' _ _ h' hr' _ =>
      have hplace : i = j := by
        have hi := List.getElem?_eq_some_iff.1 hr
        have hlength : i < ((g.candidates opened).map SpanRule.opening).length := by
          rw [List.length_map]
          exact hi.1
        refine (List.getElem?_inj hlength (hapart opened h.opened)).1 ?_
        rw [List.getElem?_map, List.getElem?_map, hr, hr']
      rw [hplace, ih h']

/-- The stack is determined by the open rules. -/
theorem Follows.stack_unique (hapart : g.OpensApart) (h : g.Follows m k) (h' : g.Follows m' k')
    (hopened : k.opened = k'.opened) : m.stack = m'.stack := by
  obtain ⟨c, hchain⟩ := h
  obtain ⟨c', hchain'⟩ := h'
  dsimp only at hopened
  subst hopened
  rw [hchain.path_unique hapart hchain']

theorem Chain.opened_unique {path : List Nat} {rules' : List SpanRule} (h : g.Chain path rules)
    (h' : g.Chain path rules') : rules = rules' := by
  induction h generalizing rules' with
  | root =>
    cases h'
    rfl
  | inner h hr hclosing ih =>
    cases h' with
    | inner h' hr' hclosing' =>
      obtain rfl := ih h'
      rw [Option.some.inj (hr.symm.trans hr')]

/-- The open rules are determined by the stack. -/
theorem Follows.opened_unique (h : g.Follows m k) (h' : g.Follows m' k')
    (hstack : m.stack = m'.stack) : k.opened = k'.opened := by
  obtain ⟨c, hchain⟩ := h
  obtain ⟨c', hchain'⟩ := h'
  obtain rfl := stateName_injective (List.cons.inj hstack).1
  exact hchain.opened_unique hchain'

section Steps

variable {table : Table} {ready : ReadyTable} {nested : Nested}
  {first tokens : List Token} {height : Nat}

/-- **A step that puts a state on the stack opens a rule** that can be opened there. -/
theorem Follows.exists_opened (ht : g.table = .ok table) (hr : table.ready g.scanFlags = .ok ready)
    (hopened : g.Opened k.opened) (hm : g.Follows m k)
    (hstep : Scanner.step ready nested m = .ok (some (first, m')))
    (hstack : m.stack.length < m'.stack.length) :
    ∃ r ∈ g.candidates k.opened, r.closing.isSome ∧
      g.matchEnd? r.opening m.cursor = some m'.cursor ∧
      first = [.ofChars r.kind (m.cursor.upTo m'.cursor)] ∧
      g.Follows m' ⟨m'.cursor, r :: k.opened⟩ ∧
      g.read? k = some (first, ⟨m'.cursor, r :: k.opened⟩) := by
  obtain ⟨-, hend⟩ | ⟨_, _, k', hread, hstep', hm'⟩ := hm.step nested ht hr
  · rw [hstep] at hend
    cases hend
  obtain ⟨rfl, rfl⟩ := Prod.mk.inj (Option.some.inj (Except.ok.inj (hstep.symm.trans hstep')))
  rw [hm.length_stack, hm'.length_stack] at hstack
  have hcursor := hm.cursor_eq
  have hcursor' := hm'.cursor_eq
  obtain ⟨c, opened⟩ := k
  obtain rfl : m.cursor = c := hcursor
  -- Only an opening leaves more rules open than there were.
  cases readStep_of_read? hopened hread with
  | @opens _ r d hmem hmatch =>
    obtain rfl : m'.cursor = d := hcursor'
    cases hclosing : r.closing.isSome with
    | true =>
      rw [hclosing, if_pos rfl] at hm' hread
      exact ⟨r, hmem, hclosing, hmatch, rfl, hm', hread⟩
    | false =>
      rw [hclosing] at hstack
      exact absurd hstack (Nat.lt_irrefl _)
  | plain => exact absurd hstack (Nat.lt_irrefl _)
  | closes => exact absurd (Nat.lt_succ_of_lt hstack) (Nat.lt_irrefl _)
  | goesOn => exact absurd hstack (Nat.lt_irrefl _)

/-- The run beside a reader goes through a span with it. -/
theorem SpanFrom.exists_spanSteps (nested : Nested) (ht : g.table = .ok table)
    (hr : table.ready g.scanFlags = .ok ready) (h : g.SpanFrom height k tokens k')
    (hm : g.Follows m k) :
    ∃ m', SpanSteps ready nested (height + 1) m tokens m' ∧ g.Follows m' k' := by
  induction h generalizing m with
  | closed hlow =>
    refine ⟨m, .closed ?_, hm⟩
    rw [hm.length_stack]
    exact Nat.succ_lt_succ hlow
  | ended hopen hend =>
    obtain ⟨-, hstep⟩ | ⟨_, _, _, hread, -⟩ := hm.step nested ht hr
    · refine ⟨m, .ended ?_ hstep, hm⟩
      rw [hm.length_stack]
      exact Nat.succ_le_succ hopen
    · rw [hend] at hread
      cases hread
  | next hopen hread _ ih =>
    obtain ⟨hend, -⟩ | ⟨_, m₁, _, hread', hstep, hm₁⟩ := hm.step nested ht hr
    · rw [hread] at hend
      cases hend
    · obtain ⟨rfl, rfl⟩ := Prod.mk.inj (Option.some.inj (hread.symm.trans hread'))
      obtain ⟨m', hspan, hm'⟩ := ih hm₁
      refine ⟨m', .next ?_ hstep hspan, hm'⟩
      rw [hm.length_stack]
      exact Nat.succ_le_succ hopen

/-- **The span of a rule without inner rules,** as a run goes through it. -/
theorem Follows.exists_spanSteps (nested : Nested) (ht : g.table = .ok table)
    (hr : table.ready g.scanFlags = .ok ready) {c : Cursor} {r : SpanRule} {written : String}
    (hinner : r.inner = []) (hclosing : r.closing = some written)
    (hm : g.Follows m ⟨c, r :: rules⟩) :
    ∃ tokens m', SpanSteps ready nested m.stack.length m tokens m' ∧
      g.ReadsTo ⟨c, r :: rules⟩ tokens (g.leave r written rules c) ∧
      g.Follows m' (g.leave r written rules c) ∧
      Uniform r.kind tokens (c.upTo (g.leave r written rules c).cursor) := by
  obtain ⟨tokens, hspan, huniform⟩ := exists_spanFrom (g := g) hinner hclosing rules c
  obtain ⟨m', hsteps, hm'⟩ := hspan.exists_spanSteps nested ht hr hm
  refine ⟨tokens, m', ?_, hspan.readsTo, hm', huniform⟩
  rw [hm.length_stack]
  exact hsteps

end Steps

/-! ## Where closings match -/

section Closings

variable {r : SpanRule} {written : String} {c d : Cursor}

/-- What a span covers from a place on is what it covers from the next place on, and the character
between them. -/
theorem upTo_leave_of_next? {a : Char} (opened : List SpanRule) (h : g.matchEnd? written c = none)
    (hnext : c.next? = some (a, d)) :
    c.upTo (g.leave r written opened c).cursor =
      a :: d.upTo (g.leave r written opened d).cursor := by
  rw [leave_of_next opened h hnext,
    ← (Cursor.LeadsTo.of_next? hnext).upTo_append (leadsTo_leave r written opened d),
    Cursor.upTo_of_next? hnext, List.singleton_append]

/-- **A span that a sign closes** goes on through the first such sign, or to the end of the text:
by induction along the text. -/
theorem leave_of_sign {x : Char} (hmatch : ∀ c, g.matchEnd? written c = c.over? [x])
    (opened : List SpanRule) (c : Cursor) :
    c.upTo (g.leave r written opened c).cursor = Text.through x c.after ∧
      (g.leave r written opened c).opened =
        if c.after.contains x then opened else r :: opened := by
  induction c using leave_induction (g := g) written with
  | closed c d hd =>
    rw [leave_of_match opened hd]
    rw [hmatch, Cursor.over?] at hd
    split at hd
    · next hlies =>
      obtain rfl := Option.some.inj hd
      obtain ⟨rest, hafter⟩ := hlies
      dsimp only
      rw [Cursor.upTo_past, ← hafter]
      simp [Text.through]
    · cases hd
  | ended c hnone hnext =>
    rw [leave_of_end opened hnone hnext, Cursor.after_eq_nil_of_next? hnext]
    simp [Text.through, Cursor.upTo]
  | next c a d hnone hnext ih =>
    have hne : a ≠ x := by
      rintro rfl
      rw [hmatch, Cursor.over?, Cursor.after_eq_of_next? hnext, if_pos (by simp)] at hnone
      cases hnone
    rw [upTo_leave_of_next? opened hnone hnext, leave_of_next opened hnone hnext, ih.1, ih.2,
      Cursor.after_eq_of_next? hnext, Text.through, if_neg hne, List.contains_cons,
      beq_false_of_ne (Ne.symm hne), Bool.false_or]
    exact ⟨rfl, rfl⟩

/-- A span with its opening between two places covers a text, and its end is found or not. -/
def Covers (g : Grammar) (r : SpanRule) (around : List SpanRule) (c d : Cursor)
    (covered : List Char) (found : Bool) : Prop :=
  ∃ written, r.closing = some written ∧ c.upTo (g.leave r written around d).cursor = covered ∧
    (g.leave r written around d).opened = if found then around else r :: around

theorem covers_of_sign {x : Char} (hclosing : r.closing = some written)
    (hmatch : ∀ c, g.matchEnd? written c = c.over? [x]) (hlead : c.LeadsTo d) (hopen : x ∉ c.upTo d)
    (around : List SpanRule) :
    g.Covers r around c d (Text.through x c.after) (c.after.contains x) := by
  obtain ⟨hcovered, hopened⟩ := leave_of_sign (r := r) hmatch around d
  refine ⟨written, hclosing, ?_, ?_⟩
  · rw [← hlead.upTo_append (leadsTo_leave r written around d), hcovered, hlead.after_eq,
      Text.through_append hopen]
  · have hsame : c.after.contains x = d.after.contains x := by
      rw [hlead.after_eq]
      simp [hopen]
    rw [hopened, hsame]

theorem covers_of_ahead {p : Char → Bool} (hclosing : r.closing = some written)
    (hmatch : ∀ c, g.matchEnd? written c = if c.after.head?.all p then some c else none)
    (hlead : c.LeadsTo d) (around : List SpanRule) :
    g.Covers r around c d (c.upTo d ++ d.after.takeWhile fun a => !p a) true := by
  refine ⟨written, hclosing, ?_, ?_⟩
  · rw [← hlead.upTo_append (leadsTo_leave r written around d), leave_of_ahead hmatch,
      Cursor.upTo_skip]
  · rw [leave_of_ahead hmatch, if_pos rfl]

end Closings

end Grammar
end DocHighlighter
