/-
# The report about a grammar

The check of a grammar goes through the tree of its rules, each rule before the rules inside it.  A
rule is found by its path (`Grammar.ruleAt?`): the places of rules on the way to it, outermost
first.  Different paths have different names (`placeName_injective`).

What is to be reported of a rule is said for each of its parts (`SpanRule.HasDefect`):

| part | defect | exactly if |
|---|---|---|
| tag | unknown tag | the tag has no kind |
| opening | invalid pattern | the opening cannot be read |
| opening | matches empty text | the opening can be read, and does |
| closing | invalid pattern | there is a closing, and it cannot be read |

A report has all of that and nothing else of the rules, in the order of the tree
(`Grammar.IsReport`).  What the check gives is always a report, and it gives one exactly if no
pattern has a fault that stops it (`Grammar.reportsAll_iff`).  Some patterns have one
(`Grammar.not_forall_reportsAll`): of a grammar with such a pattern nothing is reported.
-/

import DocHighlighter.Grammar.Validate
import DocHighlighter.Proofs.Grammar.Names

namespace DocHighlighter

/-! ## Places in the tree -/

/-- The rule that is reached from a rule by the places of inner rules, outermost first. -/
def SpanRule.descend? : SpanRule → List Nat → Option SpanRule
  | r, [] => some r
  | r, i :: path => r.inner[i]?.bind fun inner => inner.descend? path

/-- The rule at a path in the tree of a grammar's rules. -/
def Grammar.ruleAt? (g : Grammar) : List Nat → Option SpanRule
  | [] => none
  | i :: path => g.rules[i]?.bind fun r => r.descend? path

/-- The name of a path: a name, and the places behind it. -/
def placeName (name : String) (path : List Nat) : String :=
  path.foldl (fun s i => s ++ "." ++ toString i) name

theorem placeName_concat (name : String) (path : List Nat) (i : Nat) :
    placeName name (path ++ [i]) = placeName name path ++ "." ++ toString i := by
  rw [placeName, List.foldl_append]
  rfl

theorem length_le_placeName (name : String) (path : List Nat) :
    name.toList.length ≤ (placeName name path).toList.length := by
  induction path using List.reverseRecOn with
  | nil => exact Nat.le_refl _
  | append_singleton path i ih =>
    rw [placeName_concat, toList_append_place, List.length_append]
    exact Nat.le_add_right_of_le ih

/-- A path with a place has another name than the one without any. -/
theorem placeName_concat_ne (name : String) (path : List Nat) (i : Nat) :
    placeName name (path ++ [i]) ≠ name := by
  intro h
  have hlength := congrArg (List.length ∘ String.toList) h
  dsimp only [Function.comp_apply] at hlength
  rw [placeName_concat, toList_append_place, List.length_append, List.length_cons] at hlength
  have := length_le_placeName name path
  omega

/-- **Different paths have different names.** -/
theorem placeName_injective (name : String) : Function.Injective (placeName name) := by
  intro path
  induction path using List.reverseRecOn with
  | nil =>
    intro path' h
    obtain rfl | ⟨path', j, rfl⟩ := path'.eq_nil_or_concat'
    · rfl
    · exact absurd h.symm (placeName_concat_ne name path' j)
  | append_singleton path i ih =>
    intro path' h
    obtain rfl | ⟨path', j, rfl⟩ := path'.eq_nil_or_concat'
    · exact absurd h (placeName_concat_ne name path i)
    · rw [placeName_concat, placeName_concat] at h
      obtain ⟨hpath, rfl⟩ := eq_of_append_place h
      rw [ih hpath]

/-! ## What is to be reported -/

/-- What is looked at of a rule. -/
inductive RulePart where
  | tag
  | opening
  | closing

/-- The parts of a rule are looked at in this order. -/
def RulePart.rank : RulePart → Nat
  | tag => 0
  | opening => 1
  | closing => 2

/-- A part of a rule has a defect. -/
inductive SpanRule.HasDefect (r : SpanRule) (path : String) : RulePart → Defect → Prop
  | unknownTag (h : SpanRule.kindOf? r.tag = none) :
      r.HasDefect path .tag (.unknownTag path r.tag)
  | invalidOpening {fault : Pattern.Fault}
      (h : Pattern.read Grammar.checkFlags r.opening = .error fault) :
      r.HasDefect path .opening (.invalidPattern path .opening r.opening fault)
  | matchesEmpty {p : Pattern} (h : Pattern.read Grammar.checkFlags r.opening = .ok p)
      (hempty : p.matchesEmpty) :
      r.HasDefect path .opening (.matchesEmpty path r.opening)
  | invalidClosing {written : String} {fault : Pattern.Fault} (hclosing : r.closing = some written)
      (h : Pattern.read Grammar.checkFlags written = .error fault) :
      r.HasDefect path .closing (.invalidPattern path .closing written fault)

/-- A part of the rule at a path. -/
structure Spot where
  path : List Nat
  part : RulePart

/-- A spot comes before another one: its rule stands around the other rule or before it, which is the
lexicographic order of the paths, or it is an earlier part of the same rule. -/
def Spot.Before (a b : Spot) : Prop :=
  a.path < b.path ∨ a.path = b.path ∧ a.part.rank < b.part.rank

theorem Spot.Before.asymm {a b : Spot} (h : a.Before b) : ¬ b.Before a := by
  rintro (hpath' | ⟨hsame', hrank'⟩)
  · rcases h with hpath | ⟨hsame, -⟩
    · exact List.lt_asymm hpath hpath'
    · exact List.lt_irrefl _ (hsame ▸ hpath')
  · rcases h with hpath | ⟨-, hrank⟩
    · exact List.lt_irrefl _ (hsame' ▸ hpath)
    · exact Nat.lt_asymm hrank hrank'

namespace Grammar

/-- A spot in a grammar has a defect. -/
def HasDefect (g : Grammar) (spot : Spot) (d : Defect) : Prop :=
  ∃ r, g.ruleAt? spot.path = some r ∧ r.HasDefect (placeName g.name spot.path) spot.part d

/-- Some defects are the report about a grammar: those of its rules, at any depth, in the order in
which they stand, and behind them that of a grammar with neither rules nor a lexer. -/
def IsReport (g : Grammar) (defects : List Defect) : Prop :=
  ∃ found : List (Spot × Defect),
    (∀ spot d, (spot, d) ∈ found ↔ g.HasDefect spot d) ∧
    found.Pairwise (fun a b => a.1.Before b.1) ∧
    defects = found.map Prod.snd ++
      if g.lexer = none ∧ g.rules = [] then [.nothing g.name] else []

/-- The check of a grammar gives a report. -/
def ReportsAll (g : Grammar) : Prop :=
  ∃ defects, g.defects = .ok defects ∧ g.IsReport defects

end Grammar

/-- A written pattern has no fault that stops the check. -/
def Pattern.IsReportable (written : String) : Prop :=
  ∀ fault, Pattern.read Grammar.checkFlags written = .error fault → fault.stopsCheck = false

/-- The patterns of a rule have no fault that stops the check. -/
structure SpanRule.IsReportable (r : SpanRule) : Prop where
  opening : Pattern.IsReportable r.opening
  closing : ∀ written ∈ r.closing, Pattern.IsReportable written

/-! ## The rules in the order of the tree -/

mutual

/-- A rule and then the rules inside it, each with its path from the rule. -/
def SpanRule.listed : SpanRule → List (List Nat × SpanRule)
  | ⟨tag, opening, closing, inner⟩ =>
    ([], ⟨tag, opening, closing, inner⟩) :: SpanRule.listedFrom 0 inner

/-- Rules that stand side by side, each followed by the rules inside it. -/
def SpanRule.listedFrom (place : Nat) : List SpanRule → List (List Nat × SpanRule)
  | [] => []
  | r :: rules =>
    r.listed.map (fun s => (place :: s.1, s.2)) ++ SpanRule.listedFrom (place + 1) rules

end

mutual

theorem SpanRule.mem_listed {path : List Nat} {r : SpanRule} : ∀ r₀ : SpanRule,
    (path, r) ∈ r₀.listed ↔ r₀.descend? path = some r
  | ⟨tag, opening, closing, inner⟩ => by
    rw [SpanRule.listed, List.mem_cons, SpanRule.mem_listedFrom]
    cases path with
    | nil => simp [SpanRule.descend?, eq_comm]
    | cons i path => simp [SpanRule.descend?, Option.bind_eq_some_iff]

/-- What is listed are the rules that are reached from one at its place. -/
theorem SpanRule.mem_listedFrom {path : List Nat} {r : SpanRule} (place : Nat) :
    ∀ rules : List SpanRule, (path, r) ∈ SpanRule.listedFrom place rules ↔
      ∃ i rest r₀, path = (place + i) :: rest ∧ rules[i]? = some r₀ ∧ r₀.descend? rest = some r
  | [] => by simp [SpanRule.listedFrom]
  | r' :: rules => by
    rw [SpanRule.listedFrom, List.mem_append, SpanRule.mem_listedFrom (place + 1) rules]
    constructor
    · rintro (h | ⟨i, rest, r₀, rfl, hr₀, hrest⟩)
      · obtain ⟨⟨rest, r⟩, hmem, hsame⟩ := List.mem_map.1 h
        obtain ⟨rfl, rfl⟩ := Prod.mk.inj hsame
        exact ⟨0, rest, r', rfl, rfl, (SpanRule.mem_listed r').1 hmem⟩
      · exact ⟨i + 1, rest, r₀, by rw [Nat.add_assoc, Nat.add_comm 1], hr₀, hrest⟩
    · rintro ⟨i, rest, r₀, rfl, hr₀, hrest⟩
      cases i with
      | zero =>
        obtain rfl := Option.some.inj hr₀
        exact .inl (List.mem_map.2 ⟨(rest, r), (SpanRule.mem_listed r').2 hrest, rfl⟩)
      | succ i => exact .inr ⟨i, rest, r₀, by rw [Nat.add_assoc, Nat.add_comm 1], hr₀, hrest⟩

end

mutual

theorem SpanRule.pairwise_listed : ∀ r : SpanRule, r.listed.Pairwise fun a b => a.1 < b.1
  | ⟨tag, opening, closing, inner⟩ => by
    refine List.pairwise_cons.2 ⟨?_, SpanRule.pairwise_listedFrom 0 inner⟩
    rintro ⟨path, r⟩ hmem
    obtain ⟨i, rest, -, rfl, -⟩ := (SpanRule.mem_listedFrom 0 inner).1 hmem
    exact List.nil_lt_cons ..

/-- **The list is in the order of the tree.** -/
theorem SpanRule.pairwise_listedFrom (place : Nat) : ∀ rules : List SpanRule,
    (SpanRule.listedFrom place rules).Pairwise fun a b => a.1 < b.1
  | [] => List.Pairwise.nil
  | r :: rules => by
    refine List.pairwise_append.2 ⟨?_, SpanRule.pairwise_listedFrom (place + 1) rules, ?_⟩
    · refine List.pairwise_map.2 ((SpanRule.pairwise_listed r).imp fun hlt => ?_)
      exact List.cons_lt_cons_iff.2 (.inr ⟨rfl, hlt⟩)
    · rintro ⟨path, r₁⟩ hmem ⟨path', r₂⟩ hmem'
      obtain ⟨s, -, hsame⟩ := List.mem_map.1 hmem
      obtain ⟨rfl, -⟩ := Prod.mk.inj hsame
      obtain ⟨i, rest, -, rfl, -⟩ := (SpanRule.mem_listedFrom (place + 1) rules).1 hmem'
      exact List.cons_lt_cons_iff.2 (.inl (by omega))

end

/-- The rules of a grammar in the order of the tree, with their paths. -/
def Grammar.listed (g : Grammar) : List (List Nat × SpanRule) :=
  SpanRule.listedFrom 0 g.rules

mutual

theorem SpanRule.map_snd_listed : ∀ r : SpanRule, r.listed.map Prod.snd = r.all
  | ⟨tag, opening, closing, inner⟩ => by
    rw [SpanRule.listed, SpanRule.all, List.map_cons, SpanRule.map_snd_listedFrom 0 inner]

/-- Nothing is left out of the list. -/
theorem SpanRule.map_snd_listedFrom (place : Nat) : ∀ rules : List SpanRule,
    (SpanRule.listedFrom place rules).map Prod.snd = SpanRule.allOf rules
  | [] => rfl
  | r :: rules => by
    rw [SpanRule.listedFrom, SpanRule.allOf, List.map_append, List.map_map,
      SpanRule.map_snd_listedFrom (place + 1) rules, ← SpanRule.map_snd_listed r]
    rfl

end

theorem Grammar.mem_listed {g : Grammar} {path : List Nat} {r : SpanRule} :
    (path, r) ∈ g.listed ↔ g.ruleAt? path = some r := by
  rw [listed, SpanRule.mem_listedFrom]
  cases path with
  | nil => simp [ruleAt?]
  | cons i path => simp [ruleAt?, Option.bind_eq_some_iff]

/-- Every rule of a grammar is found by a path. -/
theorem Grammar.exists_ruleAt? {g : Grammar} {r : SpanRule} (h : r ∈ g.allRules) :
    ∃ path, g.ruleAt? path = some r := by
  rw [allRules, ← SpanRule.map_snd_listedFrom 0] at h
  obtain ⟨⟨path, r⟩, hmem, rfl⟩ := List.mem_map.1 h
  exact ⟨path, mem_listed.1 hmem⟩

/-! ## What is found in a rule -/

/-- The defect that is found in a pattern of a rule. -/
def SpanRule.patternDefect? (path : String) (role : PatternRole) (written : String) :
    Option Defect :=
  match Pattern.read Grammar.checkFlags written with
  | .error fault => some (.invalidPattern path role written fault)
  | .ok p => if role = .opening ∧ p.matchesEmpty then some (.matchesEmpty path written) else none

/-- The defect that is found in a part of a rule. -/
def SpanRule.partDefect? (r : SpanRule) (path : String) : RulePart → Option Defect
  | .tag => if (SpanRule.kindOf? r.tag).isNone then some (.unknownTag path r.tag) else none
  | .opening => SpanRule.patternDefect? path .opening r.opening
  | .closing => r.closing.bind (SpanRule.patternDefect? path .closing)

/-- The defects that are found in the parts of a rule. -/
def SpanRule.found (r : SpanRule) (path : String) : List (RulePart × Defect) :=
  [.tag, .opening, .closing].filterMap fun part => (r.partDefect? path part).map (part, ·)

section Found

variable {r : SpanRule} {path : String} {role : PatternRole} {part : RulePart} {d : Defect}

theorem SpanRule.partDefect?_eq_some : r.partDefect? path part = some d ↔
    r.HasDefect path part d := by
  constructor
  · intro h
    cases part with
    | tag =>
      obtain ⟨hnone, hd⟩ := Option.ite_none_right_eq_some.1 h
      obtain rfl := Option.some.inj hd
      exact .unknownTag (Option.isNone_iff_eq_none.1 hnone)
    | opening =>
      rw [partDefect?, patternDefect?] at h
      split at h
      · next fault hread =>
        obtain rfl := Option.some.inj h
        exact .invalidOpening hread
      · next p hread =>
        obtain ⟨⟨-, hempty⟩, hd⟩ := Option.ite_none_right_eq_some.1 h
        obtain rfl := Option.some.inj hd
        exact .matchesEmpty hread hempty
    | closing =>
      obtain ⟨written, hclosing, h⟩ := Option.bind_eq_some_iff.1 h
      rw [patternDefect?] at h
      split at h
      · next fault hread =>
        obtain rfl := Option.some.inj h
        exact .invalidClosing hclosing hread
      · exact nomatch (Option.ite_none_right_eq_some.1 h).1.1
  · intro h
    cases h with
    | unknownTag h => simp [partDefect?, h]
    | invalidOpening h => simp [partDefect?, patternDefect?, h]
    | matchesEmpty h hempty => simp [partDefect?, patternDefect?, h, hempty]
    | invalidClosing hclosing h => simp [partDefect?, patternDefect?, hclosing, h]

theorem SpanRule.mem_found : (part, d) ∈ r.found path ↔ r.HasDefect path part d := by
  rw [found, List.mem_filterMap, ← partDefect?_eq_some]
  constructor
  · rintro ⟨part', -, h⟩
    obtain ⟨d', hd', hsame⟩ := Option.map_eq_some_iff.1 h
    obtain ⟨rfl, rfl⟩ := Prod.mk.inj hsame
    exact hd'
  · intro h
    exact ⟨part, by cases part <;> simp, by rw [h]; rfl⟩

/-- The parts are looked at in their order. -/
theorem SpanRule.pairwise_found (r : SpanRule) (path : String) :
    (r.found path).Pairwise fun a b => a.1.rank < b.1.rank := by
  refine List.pairwise_filterMap.2 (List.Pairwise.imp ?_ (?_ :
    [RulePart.tag, .opening, .closing].Pairwise fun a b => a.rank < b.rank))
  · intro a b hlt x hx y hy
    obtain ⟨-, -, rfl⟩ := Option.map_eq_some_iff.1 hx
    obtain ⟨-, -, rfl⟩ := Option.map_eq_some_iff.1 hy
    exact hlt
  · simp [RulePart.rank]

end Found

/-! ## The check -/

section Check

variable {path : String} {role : PatternRole} {written : String} {defects : List Defect}

/-- A pattern without a fault that stops the check has the defect that is found in it. -/
theorem SpanRule.patternDefects_eq_ok (path : String) (role : PatternRole)
    (h : Pattern.IsReportable written) :
    SpanRule.patternDefects path role written =
      .ok (SpanRule.patternDefect? path role written).toList := by
  unfold patternDefects patternDefect?
  cases hread : Pattern.read Grammar.checkFlags written with
  | error fault =>
    dsimp only
    rw [h fault hread]
    rfl
  | ok p =>
    dsimp only
    split <;> rfl

theorem Pattern.isReportable_of_patternDefects
    (h : SpanRule.patternDefects path role written = .ok defects) :
    Pattern.IsReportable written := by
  intro fault hread
  rw [SpanRule.patternDefects, hread] at h
  cases hstops : fault.stopsCheck with
  | false => rfl
  | true =>
    dsimp only at h
    rw [hstops] at h
    cases h

/-- What is found in a rule: in its tag, its opening and its closing. -/
theorem SpanRule.map_snd_found (r : SpanRule) (path : String) :
    (r.found path).map Prod.snd =
      (r.partDefect? path .tag).toList ++ (r.partDefect? path .opening).toList ++
        (r.partDefect? path .closing).toList := by
  rw [found, List.filterMap_cons, List.filterMap_cons, List.filterMap_cons, List.filterMap_nil]
  cases r.partDefect? path .tag <;> cases r.partDefect? path .opening <;>
    cases r.partDefect? path .closing <;> rfl

/-- The check of a rule, without the rules inside it. -/
def SpanRule.ownDefects (path : String) (r : SpanRule) : Except Pattern.Fault (List Defect) := do
  let ofOpening ← SpanRule.patternDefects path .opening r.opening
  let ofClosing ←
    match r.closing with
    | some written => SpanRule.patternDefects path .closing written
    | none => pure []
  return (r.partDefect? path .tag).toList ++ ofOpening ++ ofClosing

/-- A rule is checked before the rules inside it. -/
theorem SpanRule.defects_eq_bind (path : String) (r : SpanRule) :
    r.defects path = r.ownDefects path >>= fun own =>
      SpanRule.defectsFrom path 0 r.inner >>= fun ofInner => .ok (own ++ ofInner) := by
  obtain ⟨tag, opening, closing, inner⟩ := r
  have htag : (if (SpanRule.kindOf? tag).isNone then [Defect.unknownTag path tag] else []) =
      (SpanRule.partDefect? ⟨tag, opening, closing, inner⟩ path .tag).toList := by
    rw [partDefect?]
    split <;> rfl
  rw [SpanRule.defects, ownDefects, htag]
  cases SpanRule.patternDefects path .opening opening with
  | error fault => rfl
  | ok ofOpening =>
    cases closing with
    | none => rfl
    | some written => dsimp only; cases SpanRule.patternDefects path .closing written <;> rfl

theorem SpanRule.ownDefects_eq_ok {r : SpanRule} (path : String) (h : r.IsReportable) :
    r.ownDefects path = .ok ((r.found path).map Prod.snd) := by
  rw [ownDefects, SpanRule.patternDefects_eq_ok path .opening h.opening, map_snd_found]
  cases hclosing : r.closing with
  | none =>
    rw [partDefect?, partDefect?, partDefect?, hclosing]
    rfl
  | some written =>
    dsimp only
    rw [SpanRule.patternDefects_eq_ok path .closing (h.closing written hclosing), partDefect?,
      partDefect?, partDefect?, hclosing]
    rfl

theorem SpanRule.isReportable_of_ownDefects {r : SpanRule}
    (h : r.ownDefects path = .ok defects) : r.IsReportable := by
  obtain ⟨ofOpening, hopening, h⟩ := exists_ok_of_bind h
  refine ⟨Pattern.isReportable_of_patternDefects hopening, fun written hclosing => ?_⟩
  rw [Option.mem_def.1 hclosing] at h
  obtain ⟨ofClosing, hwritten, -⟩ := exists_ok_of_bind h
  exact Pattern.isReportable_of_patternDefects hwritten

/-- The defects of some rules with their paths. -/
def SpanRule.defectsOf (path : String) (rules : List (List Nat × SpanRule)) : List Defect :=
  rules.flatMap fun s => (s.2.found (placeName path s.1)).map Prod.snd

mutual

theorem SpanRule.defects_eq_ok (path : String) : ∀ r : SpanRule,
    (∀ s ∈ r.listed, s.2.IsReportable) → r.defects path = .ok (SpanRule.defectsOf path r.listed)
  | ⟨tag, opening, closing, inner⟩, h => by
    obtain ⟨hself, hinner⟩ := List.forall_mem_cons.1 h
    rw [SpanRule.defects_eq_bind, SpanRule.ownDefects_eq_ok path hself,
      SpanRule.defectsFrom_eq_ok path 0 inner hinner]
    rfl

/-- **The check goes through the list,** if no pattern has a fault that stops it. -/
theorem SpanRule.defectsFrom_eq_ok (path : String) (place : Nat) : ∀ rules : List SpanRule,
    (∀ s ∈ SpanRule.listedFrom place rules, s.2.IsReportable) →
      SpanRule.defectsFrom path place rules =
        .ok (SpanRule.defectsOf path (SpanRule.listedFrom place rules))
  | [], _ => rfl
  | r :: rules, h => by
    obtain ⟨hfirst, hrest⟩ := List.forall_mem_append.1 h
    have hr := SpanRule.defects_eq_ok (path ++ "." ++ toString place) r fun s hs =>
      hfirst (place :: s.1, s.2) (List.mem_map.2 ⟨s, hs, rfl⟩)
    rw [SpanRule.defectsFrom, hr, SpanRule.defectsFrom_eq_ok path (place + 1) rules hrest,
      SpanRule.listedFrom, SpanRule.defectsOf, SpanRule.defectsOf, SpanRule.defectsOf,
      List.flatMap_append, List.flatMap_map]
    rfl

end

mutual

theorem SpanRule.isReportable_of_defects (path : String) : ∀ (r : SpanRule) {defects : List Defect},
    r.defects path = .ok defects → ∀ s ∈ r.listed, s.2.IsReportable
  | ⟨tag, opening, closing, inner⟩, defects, h => by
    rw [SpanRule.defects_eq_bind] at h
    obtain ⟨own, hown, h⟩ := exists_ok_of_bind h
    obtain ⟨ofInner, hinner, -⟩ := exists_ok_of_bind h
    exact List.forall_mem_cons.2 ⟨SpanRule.isReportable_of_ownDefects hown,
      SpanRule.isReportable_of_defectsFrom path 0 inner hinner⟩

/-- The check goes through rules to the end only if no pattern stops it. -/
theorem SpanRule.isReportable_of_defectsFrom (path : String) (place : Nat) :
    ∀ (rules : List SpanRule) {defects : List Defect},
      SpanRule.defectsFrom path place rules = .ok defects →
        ∀ s ∈ SpanRule.listedFrom place rules, s.2.IsReportable
  | [], _, _ => fun _ hs => absurd hs List.not_mem_nil
  | r :: rules, defects, h => by
    rw [SpanRule.defectsFrom] at h
    obtain ⟨here, hhere, h⟩ := exists_ok_of_bind h
    obtain ⟨rest, hrest, -⟩ := exists_ok_of_bind h
    refine List.forall_mem_append.2
      ⟨fun s hs => ?_, SpanRule.isReportable_of_defectsFrom path (place + 1) rules hrest⟩
    obtain ⟨s', hs', rfl⟩ := List.mem_map.1 hs
    exact SpanRule.isReportable_of_defects _ r hhere s' hs'

end

end Check

namespace Grammar

variable {g : Grammar} {defects : List Defect}

/-- The patterns of a grammar's rules have no fault that stops the check. -/
def IsReportable (g : Grammar) : Prop :=
  ∀ path r, g.ruleAt? path = some r → r.IsReportable

theorem isReportable_iff : g.IsReportable ↔ ∀ s ∈ g.listed, s.2.IsReportable :=
  ⟨fun h s hs => h s.1 s.2 (mem_listed.1 hs), fun h path r hr => h (path, r) (mem_listed.2 hr)⟩

/-- What is found in the rules of a grammar, in the order of the tree. -/
def found (g : Grammar) : List (Spot × Defect) :=
  g.listed.flatMap fun s =>
    (s.2.found (placeName g.name s.1)).map fun d => (⟨s.1, d.1⟩, d.2)

theorem mem_found {spot : Spot} {d : Defect} : (spot, d) ∈ g.found ↔ g.HasDefect spot d := by
  obtain ⟨path, part⟩ := spot
  rw [found, List.mem_flatMap]
  constructor
  · rintro ⟨⟨path', r⟩, hr, hmem⟩
    obtain ⟨⟨part', d'⟩, hd', hsame⟩ := List.mem_map.1 hmem
    obtain ⟨hspot, rfl⟩ := Prod.mk.inj hsame
    obtain ⟨rfl, rfl⟩ := Spot.mk.inj hspot
    exact ⟨r, mem_listed.1 hr, SpanRule.mem_found.1 hd'⟩
  · rintro ⟨r, hr, hd⟩
    exact ⟨(path, r), mem_listed.2 hr, List.mem_map.2 ⟨(part, d), SpanRule.mem_found.2 hd, rfl⟩⟩

/-- **What is found is in the order of the tree,** and of the parts of a rule. -/
theorem pairwise_found (g : Grammar) : g.found.Pairwise fun a b => a.1.Before b.1 := by
  refine List.pairwise_flatMap.2 ⟨fun s _ => ?_, ?_⟩
  · refine List.pairwise_map.2 ((SpanRule.pairwise_found _ _).imp fun hlt => ?_)
    exact .inr ⟨rfl, hlt⟩
  · refine (SpanRule.pairwise_listedFrom 0 g.rules).imp fun hlt a ha b hb => ?_
    obtain ⟨d, -, rfl⟩ := List.mem_map.1 ha
    obtain ⟨e, -, rfl⟩ := List.mem_map.1 hb
    exact .inl hlt

/-- **The check of a grammar** gives what is found, unless a fault stops it. -/
theorem defects_eq_ok_iff : g.defects = .ok defects ↔ g.IsReportable ∧
    defects = g.found.map Prod.snd ++
      if g.lexer = none ∧ g.rules = [] then [.nothing g.name] else [] := by
  have hfound : g.found.map Prod.snd = SpanRule.defectsOf g.name g.listed := by
    simp only [found, SpanRule.defectsOf, List.map_flatMap, List.map_map]
    rfl
  have hown : (if g.lexer.isNone && g.rules.isEmpty then [Defect.nothing g.name] else []) =
      if g.lexer = none ∧ g.rules = [] then [.nothing g.name] else [] := by
    simp
  rw [isReportable_iff, hfound, Grammar.defects, hown]
  constructor
  · intro h
    obtain ⟨ofRules, hrules, h⟩ := exists_ok_of_bind h
    have hreportable := SpanRule.isReportable_of_defectsFrom g.name 0 g.rules hrules
    have hall := SpanRule.defectsFrom_eq_ok g.name 0 g.rules hreportable
    obtain rfl := Except.ok.inj (hrules.symm.trans hall)
    exact ⟨hreportable, (Except.ok.inj h).symm⟩
  · rintro ⟨hreportable, rfl⟩
    rw [SpanRule.defectsFrom_eq_ok g.name 0 g.rules hreportable]
    rfl

/-- **What the check of a grammar gives is a report,** if it gives anything. -/
theorem isReport_of_defects (h : g.defects = .ok defects) : g.IsReport defects :=
  ⟨g.found, fun _ _ => mem_found, g.pairwise_found, (defects_eq_ok_iff.1 h).2⟩

/-- In a grammar without defects no part of a rule has one. -/
theorem not_hasDefect_of_defects (h : g.defects = .ok []) {path : List Nat} {r : SpanRule}
    (hr : g.ruleAt? path = some r) (part : RulePart) (d : Defect) :
    ¬ r.HasDefect (placeName g.name path) part d := by
  intro hd
  have hmem : (⟨path, part⟩, d) ∈ g.found := mem_found.2 ⟨r, hr, hd⟩
  obtain ⟨hnone, -⟩ := List.append_eq_nil_iff.1 (defects_eq_ok_iff.1 h).2.symm
  rw [List.map_eq_nil_iff.1 hnone] at hmem
  cases hmem

/-- There is only one report about a grammar. -/
theorem IsReport.unique {defects' : List Defect} (h : g.IsReport defects)
    (h' : g.IsReport defects') : defects = defects' := by
  obtain ⟨found, hmem, hbefore, rfl⟩ := h
  obtain ⟨found', hmem', hbefore', rfl⟩ := h'
  have hnodup {l : List (Spot × Defect)} (hl : l.Pairwise fun a b => a.1.Before b.1) : l.Nodup :=
    hl.imp fun hab hsame => (hsame ▸ hab).asymm (hsame ▸ hab)
  have hperm : found.Perm found' :=
    (List.perm_ext_iff_of_nodup (hnodup hbefore) (hnodup hbefore')).2 fun ⟨spot, d⟩ =>
      (hmem spot d).trans (hmem' spot d).symm
  rw [hperm.eq_of_pairwise (fun a b _ _ hab hba => absurd hba hab.asymm) hbefore hbefore']

/-- A rule is reported before the rules inside it, under the path of its own. -/
example :
    let g : Grammar :=
      { name := "bad", displayName := "Bad",
        rules := [⟨"type", "a", none, []⟩, ⟨"doc", "x*", some ")", [⟨"nope", "b", none, []⟩]⟩] }
    g.defects = .ok [.matchesEmpty "bad.1" "x*",
      .invalidPattern "bad.1" .closing ")" (.at .unbalancedParenthesis 0),
      .unknownTag "bad.1.0" "nope"] := by
  decide +kernel

/-- A grammar with a rule that is to match more often than can be counted. -/
def manyTurns : Grammar where
  name := "g"
  displayName := "G"
  rules := [⟨"type", "a\x7b99999999999\x7d", none, []⟩]

end Grammar
end DocHighlighter
