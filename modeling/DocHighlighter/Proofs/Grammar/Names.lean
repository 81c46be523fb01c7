/-
# The names of states

The state of a rule is named by its path in the tree of rules: from the root, the places of the
rules on the way.  Different paths have different names (`stateName_injective`), so what a grammar
compiles to can be said without names (`SpanRule.compile_eq`, `Grammar.table_eq`): a state for each
rule with a closing that stands among the grammar's rules, or among the inner rules of another such
rule.  Its openings, in order, enter the states of the inner rules.

A chain of open rules, each among the inner rules of the one around it (`Grammar.Chain`), has one
path, and what the table has under the name of that path are the rules of the innermost one
(`Grammar.lookup_stateName`).
-/

import DocHighlighter.Proofs.Grammar.Tree

namespace DocHighlighter

open Scanner

/-- The name of the state of a path: the places of rules, innermost first. -/
def stateName : List Nat → String
  | [] => rootState
  | i :: path => stateName path ++ "." ++ toString i

theorem dot_not_mem_digits (i : Nat) : '.' ∉ (toString i).toList := by
  intro h
  rw [Nat.toString_eq_repr, Nat.toList_repr] at h
  exact absurd (Nat.isDigit_of_mem_toDigits (by decide) (by decide) h) (by decide)

theorem eq_of_toList_toString {i j : Nat} (h : (toString i).toList = (toString j).toList) :
    i = j := by
  rw [Nat.toString_eq_repr, Nat.toString_eq_repr, Nat.toList_repr, Nat.toList_repr] at h
  have hread := congrArg (fun digits => Nat.ofDigitChars 10 digits 0) h
  simpa only [Nat.ofDigitChars_toDigits (by decide : 1 < 10) (by decide)] using hread

/-- What is before the last separator, and what is behind it. -/
theorem eq_of_append_separator {α : Type} {a : α} {u v x y : List α} (hx : a ∉ x) (hy : a ∉ y)
    (h : u ++ a :: x = v ++ a :: y) : u = v ∧ x = y := by
  rcases List.append_eq_append_iff.1 h with ⟨w, rfl, hw⟩ | ⟨w, rfl, hw⟩
  · cases w with
    | nil => exact ⟨(List.append_nil u).symm, (List.cons.inj hw).2⟩
    | cons b w =>
      rw [(List.cons.inj hw).2] at hx
      exact absurd (List.mem_append_right w List.mem_cons_self) hx
  · cases w with
    | nil => exact ⟨List.append_nil v, (List.cons.inj hw).2.symm⟩
    | cons b w =>
      rw [(List.cons.inj hw).2] at hy
      exact absurd (List.mem_append_right w List.mem_cons_self) hy

theorem toList_append_place (s : String) (i : Nat) :
    (s ++ "." ++ toString i).toList = s.toList ++ '.' :: (toString i).toList := by
  rw [String.toList_append, String.toList_append, List.append_assoc]
  rfl

/-- A name with a place behind it says which name and which place. -/
theorem eq_of_append_place {s t : String} {i j : Nat}
    (h : s ++ "." ++ toString i = t ++ "." ++ toString j) : s = t ∧ i = j := by
  have hlists := congrArg String.toList h
  rw [toList_append_place, toList_append_place] at hlists
  obtain ⟨hnames, hdigits⟩ :=
    eq_of_append_separator (dot_not_mem_digits i) (dot_not_mem_digits j) hlists
  exact ⟨String.toList_inj.1 hnames, eq_of_toList_toString hdigits⟩

theorem toList_stateName_cons (i : Nat) (path : List Nat) :
    (stateName (i :: path)).toList = (stateName path).toList ++ '.' :: (toString i).toList :=
  toList_append_place ..

theorem stateName_cons_ne_root (i : Nat) (path : List Nat) : stateName (i :: path) ≠ rootState := by
  intro h
  have hmem : '.' ∈ (stateName (i :: path)).toList := by
    rw [toList_stateName_cons]
    exact List.mem_append_right _ List.mem_cons_self
  rw [h] at hmem
  exact absurd hmem (by decide)

/-- **Different paths have different names.** -/
theorem stateName_injective : Function.Injective stateName := by
  intro path
  induction path with
  | nil =>
    rintro (_ | ⟨j, path'⟩) h
    · rfl
    · exact absurd h.symm (stateName_cons_ne_root j path')
  | cons i path ih =>
    rintro (_ | ⟨j, path'⟩) h
    · exact absurd h (stateName_cons_ne_root i path)
    · obtain ⟨hpath, rfl⟩ := eq_of_append_place h
      rw [ih hpath]

/-! ## What rules compile to -/

mutual

/-- The rules that get states of their own, each with its path: those inside a rule before it. -/
def SpanRule.spans (path : List Nat) : SpanRule → List (List Nat × SpanRule)
  | ⟨_, _, none, _⟩ => []
  | ⟨tag, opening, some written, inner⟩ =>
    SpanRule.spansFrom path 0 inner ++ [(path, ⟨tag, opening, some written, inner⟩)]

/-- The rules that get states of their own, of rules that stand side by side. -/
def SpanRule.spansFrom (path : List Nat) (place : Nat) : List SpanRule → List (List Nat × SpanRule)
  | [] => []
  | r :: rules => r.spans (place :: path) ++ SpanRule.spansFrom path (place + 1) rules

end

/-- The scanner rule that opens a span, and enters its state if there is something to close. -/
def SpanRule.openingRule (r : SpanRule) (path : List Nat) : Scanner.Rule :=
  on r.opening r.kind (if r.closing.isSome then [.enter (stateName path)] else [])

/-- The scanner rules that open the spans of rules that stand side by side. -/
def SpanRule.openingRules (path : List Nat) (place : Nat) : List SpanRule → List Scanner.Rule
  | [] => []
  | r :: rules => r.openingRule (place :: path) :: SpanRule.openingRules path (place + 1) rules

/-- The state of a rule. -/
def SpanRule.stateOf (s : List Nat × SpanRule) : String × List Scanner.Rule :=
  (stateName s.1,
    SpanRule.openingRules s.1 0 s.2.inner ++ lastRules s.2.kind (s.2.closing.getD ""))

theorem SpanRule.kind_eq {r : SpanRule} {kind : Kind} (h : SpanRule.kindOf? r.tag = some kind) :
    r.kind = kind := by
  rw [SpanRule.kind, h, Option.getD_some]

mutual

/-- **What a rule compiles to,** if it does: its opening, and the states of the spans in it. -/
theorem SpanRule.compile_eq {path : List Nat} {opening : Scanner.Rule} {states : Table} :
    ∀ {r : SpanRule}, r.compile (stateName path) = .ok (opening, states) →
      opening = r.openingRule path ∧ states = (r.spans path).map SpanRule.stateOf
  | ⟨tag, begins, closing, inner⟩, h => by
    obtain ⟨kind, hkind, hcases⟩ := SpanRule.compile_eq_ok h
    have hr : (⟨tag, begins, closing, inner⟩ : SpanRule).kind = kind := SpanRule.kind_eq hkind
    obtain ⟨rfl, rfl, rfl⟩ | ⟨written, openings, more, rfl, hinner, rfl, rfl⟩ := hcases
    · rw [SpanRule.openingRule, hr, SpanRule.spans]
      exact ⟨rfl, rfl⟩
    · obtain ⟨rfl, rfl⟩ := SpanRule.compileFrom_eq hinner
      rw [SpanRule.openingRule, SpanRule.spans, List.map_append, hr]
      refine ⟨rfl, ?_⟩
      rw [List.map_singleton, SpanRule.stateOf, hr]
      rfl

/-- What rules that stand side by side compile to. -/
theorem SpanRule.compileFrom_eq {path : List Nat} {place : Nat} {openings : List Scanner.Rule}
    {states : Table} :
    ∀ {rules : List SpanRule},
      SpanRule.compileFrom (stateName path) place rules = .ok (openings, states) →
        openings = SpanRule.openingRules path place rules ∧
          states = (SpanRule.spansFrom path place rules).map SpanRule.stateOf
  | [], h => by
    obtain ⟨rfl, rfl⟩ := Prod.mk.inj (Except.ok.inj h)
    exact ⟨rfl, rfl⟩
  | r :: rules, h => by
    obtain ⟨opening, states, openings, more, hfirst, hrest, rfl, rfl⟩ :=
      SpanRule.compileFrom_cons_eq_ok h
    have hnamed : r.compile (stateName (place :: path)) = .ok (opening, states) := hfirst
    obtain ⟨rfl, rfl⟩ := SpanRule.compile_eq hnamed
    obtain ⟨rfl, rfl⟩ := SpanRule.compileFrom_eq hrest
    rw [SpanRule.openingRules, SpanRule.spansFrom, List.map_append]
    exact ⟨rfl, rfl⟩

end

/-! ## No two states have one name -/

mutual

theorem SpanRule.isSuffix_of_mem_spans {path : List Nat} {s : List Nat × SpanRule} :
    ∀ {r : SpanRule}, s ∈ r.spans path → path <:+ s.1
  | ⟨_, _, none, _⟩, h => absurd h List.not_mem_nil
  | ⟨_, _, some _, inner⟩, h => by
    rcases List.mem_append.1 h with h | h
    · obtain ⟨i, -, hi⟩ := SpanRule.exists_isSuffix_of_mem_spansFrom h
      exact (List.suffix_cons i path).trans hi
    · rw [List.mem_singleton.1 h]

/-- The paths inside of rules that stand side by side begin with the places of these rules. -/
theorem SpanRule.exists_isSuffix_of_mem_spansFrom {path : List Nat} {place : Nat}
    {s : List Nat × SpanRule} : ∀ {rules : List SpanRule}, s ∈ SpanRule.spansFrom path place rules →
      ∃ i, place ≤ i ∧ i :: path <:+ s.1
  | [], h => absurd h List.not_mem_nil
  | r :: rules, h => by
    rcases List.mem_append.1 h with h | h
    · exact ⟨place, Nat.le_refl _, SpanRule.isSuffix_of_mem_spans h⟩
    · obtain ⟨i, hle, hi⟩ := SpanRule.exists_isSuffix_of_mem_spansFrom h
      exact ⟨i, Nat.le_of_succ_le hle, hi⟩

end

mutual

theorem SpanRule.nodup_spans {path : List Nat} :
    ∀ r : SpanRule, ((r.spans path).map Prod.fst).Nodup
  | ⟨_, _, none, _⟩ => List.nodup_nil
  | ⟨_, _, some _, inner⟩ => by
    rw [SpanRule.spans, List.map_append, List.map_singleton]
    refine List.nodup_append.2 ⟨SpanRule.nodup_spansFrom inner, List.nodup_singleton _, ?_⟩
    rintro p hp q hq rfl
    obtain ⟨s, hs, rfl⟩ := List.mem_map.1 hp
    obtain ⟨i, -, hi⟩ := SpanRule.exists_isSuffix_of_mem_spansFrom hs
    have hlength := hi.length_le
    rw [List.mem_singleton.1 hq, List.length_cons] at hlength
    exact absurd hlength (Nat.not_succ_le_self _)

/-- **No two states have one path.** -/
theorem SpanRule.nodup_spansFrom {path : List Nat} {place : Nat} :
    ∀ rules : List SpanRule, ((SpanRule.spansFrom path place rules).map Prod.fst).Nodup
  | [] => List.nodup_nil
  | r :: rules => by
    rw [SpanRule.spansFrom, List.map_append]
    refine List.nodup_append.2 ⟨SpanRule.nodup_spans r, SpanRule.nodup_spansFrom rules, ?_⟩
    rintro p hp q hq rfl
    obtain ⟨s, hs, rfl⟩ := List.mem_map.1 hp
    obtain ⟨s', hs', hsame⟩ := List.mem_map.1 hq
    obtain ⟨i, hle, hi⟩ := SpanRule.exists_isSuffix_of_mem_spansFrom hs'
    have hplace := SpanRule.isSuffix_of_mem_spans hs
    rw [hsame] at hi
    -- The two paths end alike, so their places would be one.
    have heq := (List.suffix_of_suffix_length_le hplace hi (Nat.le_refl _)).eq_of_length rfl
    have hplaces : place = i := (List.cons.inj heq).1
    omega

end

/-! ## Chains of open rules -/

/-- The rules on a path, innermost first: each has a closing, and stands at its place among the
inner rules of the one around it. -/
inductive Grammar.Chain (g : Grammar) : List Nat → List SpanRule → Prop
  | root : g.Chain [] []
  | inner {i : Nat} {path : List Nat} {r : SpanRule} {opened : List SpanRule}
      (h : g.Chain path opened) (hr : (g.candidates opened)[i]? = some r)
      (hclosing : r.closing.isSome) : g.Chain (i :: path) (r :: opened)

theorem SpanRule.mem_spans_self {path : List Nat} {r : SpanRule} (h : r.closing.isSome) :
    (path, r) ∈ r.spans path := by
  obtain ⟨tag, opening, closing, inner⟩ := r
  cases closing with
  | none => cases h
  | some written => exact List.mem_append_right _ (List.mem_singleton_self _)

theorem SpanRule.mem_spansFrom_of_getElem? {path : List Nat} (place : Nat) {i : Nat} {r : SpanRule}
    (hclosing : r.closing.isSome) : ∀ {rules : List SpanRule}, rules[i]? = some r →
      ((place + i) :: path, r) ∈ SpanRule.spansFrom path place rules := by
  intro rules h
  induction rules generalizing place i with
  | nil => cases h
  | cons r' rules ih =>
    cases i with
    | zero =>
      obtain rfl := Option.some.inj h
      exact List.mem_append_left _ (SpanRule.mem_spans_self hclosing)
    | succ i =>
      rw [Nat.add_succ, ← Nat.succ_add]
      exact List.mem_append_right _ (ih (place + 1) h)

mutual

/-- Inside a rule that has a state, the inner rules with a closing have one too. -/
theorem SpanRule.mem_spans_inner {path p : List Nat} {i : Nat} {r r' : SpanRule}
    (hinner : r.inner[i]? = some r') (hclosing : r'.closing.isSome) :
    ∀ {r₀ : SpanRule}, (p, r) ∈ r₀.spans path → (i :: p, r') ∈ r₀.spans path
  | ⟨_, _, none, _⟩, h => absurd h List.not_mem_nil
  | ⟨_, _, some _, inner⟩, h => by
    refine List.mem_append_left _ ?_
    rcases List.mem_append.1 h with h | h
    · exact SpanRule.mem_spansFrom_inner hinner hclosing h
    · obtain ⟨rfl, rfl⟩ := Prod.mk.inj (List.mem_singleton.1 h)
      exact Nat.zero_add i ▸ SpanRule.mem_spansFrom_of_getElem? 0 hclosing hinner

theorem SpanRule.mem_spansFrom_inner {path p : List Nat} {place i : Nat} {r r' : SpanRule}
    (hinner : r.inner[i]? = some r') (hclosing : r'.closing.isSome) :
    ∀ {rules : List SpanRule}, (p, r) ∈ SpanRule.spansFrom path place rules →
      (i :: p, r') ∈ SpanRule.spansFrom path place rules
  | [], h => absurd h List.not_mem_nil
  | _ :: _, h => by
    rcases List.mem_append.1 h with h | h
    · exact List.mem_append_left _ (SpanRule.mem_spans_inner hinner hclosing h)
    · exact List.mem_append_right _ (SpanRule.mem_spansFrom_inner hinner hclosing h)

end

namespace Grammar

variable {g : Grammar} {path : List Nat} {opened : List SpanRule} {table : Table}

/-- The innermost rule of a chain has a state. -/
theorem Chain.mem_spans {r : SpanRule} (h : g.Chain path (r :: opened)) :
    (path, r) ∈ SpanRule.spansFrom [] 0 g.rules := by
  induction opened generalizing path r with
  | nil =>
    obtain - | @⟨i, path, r, -, h, hr, hclosing⟩ := h
    cases h
    exact Nat.zero_add i ▸ SpanRule.mem_spansFrom_of_getElem? 0 hclosing hr
  | cons r' opened ih =>
    obtain - | @⟨i, path, r, -, h, hr, hclosing⟩ := h
    exact SpanRule.mem_spansFrom_inner hr hclosing (ih h)

/-- The rules of a state behind the openings: of the root, or of the innermost open rule. -/
def laterRules (g : Grammar) : List SpanRule → List Scanner.Rule
  | [] => g.keywordRules ++ Grammar.plainRules
  | r :: _ => lastRules r.kind (r.closing.getD "")

/-- **What a grammar compiles to.** -/
theorem table_eq (h : g.table = .ok table) :
    table = (SpanRule.spansFrom [] 0 g.rules).map SpanRule.stateOf ++
      [(stateName [], SpanRule.openingRules [] 0 g.rules ++ g.laterRules [])] := by
  obtain ⟨openings, states, hc, rfl⟩ := Grammar.table_eq_ok h
  have hnamed : SpanRule.compileFrom (stateName []) 0 g.rules = .ok (openings, states) := hc
  obtain ⟨rfl, rfl⟩ := SpanRule.compileFrom_eq hnamed
  rw [laterRules, ← List.append_assoc]
  rfl

/-- **State names never clash.** -/
theorem nodup_table (h : g.table = .ok table) : (table.map (·.1)).Nodup := by
  have hnames : table.map (·.1) =
      ((SpanRule.spansFrom [] 0 g.rules).map Prod.fst ++ [[]]).map stateName := by
    rw [table_eq h, List.map_append, List.map_append, List.map_map, List.map_map]
    rfl
  rw [hnames]
  refine List.Nodup.map stateName_injective (List.nodup_append.2
    ⟨SpanRule.nodup_spansFrom g.rules, List.nodup_singleton _, ?_⟩)
  rintro p hp q hq rfl
  obtain ⟨s, hs, rfl⟩ := List.mem_map.1 hp
  obtain ⟨i, -, hi⟩ := SpanRule.exists_isSuffix_of_mem_spansFrom hs
  rw [List.mem_singleton.1 hq] at hi
  exact absurd (List.suffix_nil.1 hi) (List.cons_ne_nil _ _)

/-- **What is found under the name of a chain** are the rules of its innermost rule. -/
theorem lookup_stateName (ht : g.table = .ok table) (h : g.Chain path opened) :
    table.lookup (stateName path) =
      some (SpanRule.openingRules path 0 (g.candidates opened) ++ g.laterRules opened) := by
  have hnodup := nodup_table ht
  rw [table_eq ht] at hnodup ⊢
  cases opened with
  | nil =>
    cases h
    exact lookup_of_mem hnodup (List.mem_append_right _ List.mem_cons_self)
  | cons r opened =>
    exact lookup_of_mem hnodup (List.mem_append_left _ (List.mem_map_of_mem h.mem_spans))

end Grammar

end DocHighlighter
