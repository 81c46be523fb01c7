/-
# Nested scans that begin at the root only

A group of a match can be scanned on its own, from the root or from a further state.  A
lexer that adds keywords to another one can begin nested scans at the root only
(`rootOnly`); where the other one begins one at a further state, its scan ends.

`ReadyTable.AsksForState` says that this happens for a text: a run over it, or one over
the text of a group that is scanned on its own, comes to a match with such a group.

| statement | says |
|---|---|
| `placedScan_rootOnly` | such a scan gives what the scan of the table gives, or it asks and ends |
| `not_asksForState_of_placedScanFrom` | a scan that gives tokens has not asked |
-/

import DocHighlighter.Grammar.Compile
import DocHighlighter.Proofs.Scanner.Places
import DocHighlighter.Proofs.Scanner.Ready
import Mathlib.Logic.Relation

namespace DocHighlighter
namespace Scanner

open Text (Cursor)

/-! ## The changed table -/

/-- What becomes of a group where nested scans begin at the root only. -/
def Part.rootOnly : Part → Part
  | .nested (some _) => .refused
  | p => p

/-- The tokens of a match where nested scans begin at the root only. -/
def Action.rootOnly : Action → Action
  | .groups parts => .groups (parts.map Part.rootOnly)
  | a => a

/-- A ready rule whose nested scans begin at the root only. -/
def ReadyRule.rootOnly (r : ReadyRule) : ReadyRule :=
  { r with action := r.action.rootOnly }

/-- A ready table whose nested scans begin at the root only. -/
def ReadyTable.rootOnly (t : ReadyTable) : ReadyTable :=
  t.map fun (state, rules) => (state, rules.map ReadyRule.rootOnly)

theorem mapM_map_eq {α β ε : Type} {f : α → α} {h : β → β} {g : α → Except ε β}
    (hg : ∀ x, g (f x) = (g x).map h) (xs : List α) :
    (xs.map f).mapM g = (xs.mapM g).map (List.map h) := by
  induction xs with
  | nil => rfl
  | cons x xs ih =>
    rw [List.map_cons, List.mapM_cons, List.mapM_cons, hg, ih]
    cases g x with
    | error fault => rfl
    | ok y => cases xs.mapM g <;> rfl

theorem Rule.ready_rootOnly (flags : Pattern.Flags) (state : String) (r : Rule) :
    Rule.ready flags state { r with action := r.action.rootOnly } =
      (r.ready flags state).map ReadyRule.rootOnly := by
  unfold Rule.ready
  cases r.pattern with
  | built expr => rfl
  | written text =>
    dsimp only
    cases Pattern.read flags text <;> rfl

/-- Reading the patterns of a table and changing it can be done in either order. -/
theorem Table.ready_rootOnly (flags : Pattern.Flags) (t : Table) :
    Table.ready flags (DocHighlighter.rootOnly t) =
      (t.ready flags).map ReadyTable.rootOnly := by
  refine mapM_map_eq (fun (state, rules) => ?_) t
  have hrules := mapM_map_eq (Rule.ready_rootOnly flags state) rules
  dsimp only
  refine (congrArg (fun ready => ready >>= fun rs => pure (state, rs)) hrules).trans ?_
  cases rules.mapM (Rule.ready flags state) <;> rfl

variable {t : ReadyTable}

theorem ReadyTable.lookup_rootOnly (t : ReadyTable) (state : String) :
    t.rootOnly.lookup state = (t.lookup state).map (List.map ReadyRule.rootOnly) := by
  induction t with
  | nil => rfl
  | cons s rest ih =>
    obtain ⟨name, rules⟩ := s
    rw [ReadyTable.rootOnly, List.map_cons, List.lookup_cons, List.lookup_cons]
    cases state == name with
    | true => rfl
    | false => exact ih

theorem ReadyTable.active_rootOnly (t : ReadyTable) (stack : List String) :
    t.rootOnly.active stack = (t.active stack).map ReadyRule.rootOnly := by
  cases stack with
  | nil => rfl
  | cons top rest =>
    rw [active, active, rules, rules, lookup_rootOnly]
    cases t.lookup top <;> rfl

/-- The same rule matches, in the same way. -/
theorem firstMatch?_rootOnly (t : ReadyTable) (stack : List String) (c : Cursor) :
    firstMatch? (t.rootOnly.active stack) c =
      (firstMatch? (t.active stack) c).map fun (r, m) => (r.rootOnly, m) := by
  rw [t.active_rootOnly]
  induction t.active stack with
  | nil => rfl
  | cons r rules ih =>
    unfold firstMatch? at ih ⊢
    rw [List.map_cons, List.findSome?_cons, List.findSome?_cons]
    have hpattern : r.rootOnly.pattern = r.pattern := rfl
    rw [hpattern]
    cases r.pattern.matchAt? c with
    | none => exact ih
    | some m => rfl

/-! ## Where a run comes -/

/-- Where a run stands after a step, whatever its tokens. -/
def Config.next? (t : ReadyTable) (k : Config) : Option Config :=
  match firstMatch? (t.active k.stack) k.cursor with
  | some (r, m) => some ⟨m.stop, r.moves.foldl (fun s m => m.apply s) k.stack⟩
  | none => k.cursor.next?.map fun (c, d) => ⟨d, if c == '\n' then [rootState] else k.stack⟩

/-- A run comes from one standing to another. -/
def Visits (t : ReadyTable) : Config → Config → Prop :=
  Relation.ReflTransGen fun k k' => k.next? t = some k'

/-- Where a scan of a text from the root begins. -/
def Config.atRoot (text : List Char) : Config :=
  ⟨.start text, [rootState]⟩

/-- A run over a text comes to a match one of whose groups is scanned on its own, from the given
state above the root or from the root. -/
inductive ReadyTable.Nests (t : ReadyTable) (text : List Char) (state : Option String)
    (s : Pattern.Span) : Prop
  | intro {k : Config} {r : ReadyRule} {m : Pattern.Match} {parts : List Part} {group : Nat}
      (hvisits : Visits t (.atRoot text) k)
      (hfirst : firstMatch? (t.active k.stack) k.cursor = some (r, m))
      (haction : r.action = .groups parts)
      (hpart : (Part.nested state, group) ∈ parts.zipIdx 1)
      (hgroup : m.captures.get? group = some s)

/-- The scan of a text asks for a nested scan from a further state than the root, itself or in one
of its nested scans. -/
inductive ReadyTable.AsksForState (t : ReadyTable) : List Char → Prop
  | here {text : List Char} {state : String} {s : Pattern.Span}
      (hnests : t.Nests text (some state) s) : AsksForState t text
  | inside {text : List Char} {s : Pattern.Span} (hnests : t.Nests text none s)
      (hasks : AsksForState t s.text) : AsksForState t text

theorem Config.next?_rootOnly (k : Config) : k.next? t.rootOnly = k.next? t := by
  unfold Config.next?
  rw [firstMatch?_rootOnly]
  cases firstMatch? (t.active k.stack) k.cursor <;> rfl

theorem visits_rootOnly {k k' : Config} : Visits t.rootOnly k k' ↔ Visits t k k' := by
  unfold Visits
  simp only [Config.next?_rootOnly]

/-- A step leads to where the run comes next. -/
theorem next?_of_placedStep {nested : PlacedNested} {k : Config}
    {next : Option (List PlacedToken × Config)} (h : placedStep t nested k = .ok next) :
    k.next? t = next.map (·.2) := by
  unfold placedStep at h
  unfold Config.next?
  cases hfirst : firstMatch? (t.active k.stack) k.cursor with
  | some found =>
    obtain ⟨r, m⟩ := found
    rw [hfirst] at h
    dsimp only at h
    obtain ⟨ps, -, h⟩ := exists_ok_of_bind h
    obtain rfl := Except.ok.inj h
    rfl
  | none =>
    rw [hfirst] at h
    dsimp only at h
    cases hnext : k.cursor.next? with
    | none =>
      rw [hnext] at h
      obtain rfl := Except.ok.inj h
      rfl
    | some answer =>
      obtain ⟨c, d⟩ := answer
      rw [hnext] at h
      dsimp only at h
      rw [Option.map_some]
      split_ifs at h with hnewline <;>
        · obtain rfl := Except.ok.inj h
          simp only [hnewline, if_true, Bool.false_eq_true, if_false, Option.map_some]

/-- A table that stays as it is has no nested scans that begin at a further state. -/
theorem ReadyTable.not_asksForState (h : t.rootOnly = t) (text : List Char) :
    ¬ t.AsksForState text := by
  intro hasks
  induction hasks with
  | inside _ _ ih => exact ih
  | here hnests =>
    obtain ⟨-, hfirst, haction, hpart, -⟩ := hnests
    rename_i state s k r m parts group
    have hsame := firstMatch?_rootOnly t k.stack k.cursor
    rw [h, hfirst] at hsame
    have hrule : r = r.rootOnly := (Prod.mk.inj (Option.some.inj hsame)).1
    have hparts : parts.map Part.rootOnly = parts := by
      have hactions := congrArg ReadyRule.action hrule
      rw [ReadyRule.rootOnly, haction] at hactions
      exact (Action.groups.inj hactions).symm
    have hmem : Part.nested (some state) ∈ parts := (List.mem_zipIdx hpart).2.2 ▸ List.getElem_mem _
    have hself := List.map_inj_left.1 (hparts.trans (List.map_id parts).symm) _ hmem
    cases hself

/-! ## Answers that agree -/

/-- The second answer is the first one, or a refusal that there is a reason for. -/
inductive AgreesUnless (reason : Prop) {α : Type} : Except ScanFault α → Except ScanFault α → Prop
  | agrees (answer : Except ScanFault α) : AgreesUnless reason answer answer
  | refused {answer : Except ScanFault α} (hreason : reason) :
      AgreesUnless reason answer (.error .nestedState)

namespace AgreesUnless

variable {reason : Prop} {α β : Type} {answer answer' : Except ScanFault α}

theorem bind (h : AgreesUnless reason answer answer') {f g : α → Except ScanFault β}
    (hthen : ∀ a, answer = .ok a → AgreesUnless reason (f a) (g a)) :
    AgreesUnless reason (answer >>= f) (answer' >>= g) := by
  cases h with
  | agrees =>
    cases answer with
    | error fault => exact .agrees _
    | ok a => exact hthen a rfl
  | refused hreason => exact .refused hreason

theorem map (h : AgreesUnless reason answer answer') (f : α → β) :
    AgreesUnless reason (answer.map f) (answer'.map f) := by
  cases h with
  | agrees => exact .agrees _
  | refused hreason => exact .refused hreason

end AgreesUnless

section Agreeing

variable {reason : Prop} {nested nested' : PlacedNested} {m : Pattern.Match}

theorem Part.agreesUnless {p : Part} {group : Nat}
    (hstate : ∀ state s, p = .nested (some state) → m.captures.get? group = some s → reason)
    (hroot : ∀ s, p = .nested none → m.captures.get? group = some s →
      AgreesUnless reason (nested s.text [rootState]) (nested' s.text [rootState])) :
    AgreesUnless reason (p.placedTokens nested m group)
      (p.rootOnly.placedTokens nested' m group) := by
  cases p with
  | token kind => exact .agrees _
  | refused => exact .agrees _
  | nested state =>
    cases state with
    | none =>
      unfold Part.rootOnly Part.placedTokens
      cases hgroup : m.captures.get? group with
      | none => exact .agrees _
      | some s => exact (hroot s rfl hgroup).map _
    | some state =>
      unfold Part.rootOnly Part.placedTokens
      cases hgroup : m.captures.get? group with
      | none => exact .agrees _
      | some s => exact .refused (hstate state s rfl hgroup)

theorem groupPlacedTokens_agreesUnless {parts : List Part} {first : Nat}
    (h : ∀ p group, (p, group) ∈ parts.zipIdx first → AgreesUnless reason
      (p.placedTokens nested m group) (p.rootOnly.placedTokens nested' m group)) :
    AgreesUnless reason (groupPlacedTokens nested m first parts)
      (groupPlacedTokens nested' m first (parts.map Part.rootOnly)) := by
  induction parts generalizing first with
  | nil => exact .agrees _
  | cons p parts ih =>
    have hparts : ∀ q group, (q, group) ∈ parts.zipIdx (first + 1) → AgreesUnless reason
        (q.placedTokens nested m group) (q.rootOnly.placedTokens nested' m group) :=
      fun q group hq => h q group (by rw [List.zipIdx_cons]; exact List.mem_cons_of_mem _ hq)
    rw [List.map_cons, groupPlacedTokens, groupPlacedTokens]
    refine (h p first (by rw [List.zipIdx_cons]; exact List.mem_cons_self)).bind fun here _ => ?_
    exact (ih hparts).bind fun rest _ => .agrees _

/-- What a step gives by the changed table is what it gives by the table, or a refusal that the
groups of the match are the reason for. -/
theorem placedStep_agreesUnless {k : Config}
    (hstate : ∀ r m parts state group s, firstMatch? (t.active k.stack) k.cursor = some (r, m) →
      r.action = .groups parts → (Part.nested (some state), group) ∈ parts.zipIdx 1 →
      m.captures.get? group = some s → reason)
    (hroot : ∀ r m parts group s, firstMatch? (t.active k.stack) k.cursor = some (r, m) →
      r.action = .groups parts → (Part.nested none, group) ∈ parts.zipIdx 1 →
      m.captures.get? group = some s →
      AgreesUnless reason (nested s.text [rootState]) (nested' s.text [rootState])) :
    AgreesUnless reason (placedStep t nested k) (placedStep t.rootOnly nested' k) := by
  unfold placedStep
  rw [firstMatch?_rootOnly]
  cases hfirst : firstMatch? (t.active k.stack) k.cursor with
  | none => exact .agrees _
  | some found =>
    obtain ⟨⟨pattern, action, moves⟩, m⟩ := found
    have haction : AgreesUnless reason (action.placedTokens nested k.cursor m)
        (action.rootOnly.placedTokens nested' k.cursor m) := by
      cases action with
      | token kind => exact .agrees _
      | nonempty kind => exact .agrees _
      | silent => exact .agrees _
      | groups parts =>
        refine groupPlacedTokens_agreesUnless fun p group hp => Part.agreesUnless ?_ ?_
        · rintro state s rfl hgroup
          exact hstate _ m parts state group s hfirst rfl hp hgroup
        · rintro s rfl hgroup
          exact hroot _ m parts group s hfirst rfl hp hgroup
    exact haction.bind fun ps _ => .agrees _

end Agreeing

theorem ReadyTable.fuelFor_rootOnly (t : ReadyTable) (n : Nat) :
    t.rootOnly.fuelFor n = t.fuelFor n := by
  simp [fuelFor, ReadyTable.rootOnly]

/-- A run by the changed table gives what the run by the table gives, or a refusal that the steps
on the way are the reason for. -/
theorem placedRun_agreesUnless {reason : Prop} {nested nested' : PlacedNested} {start k : Config}
    (hstep : ∀ k, Visits t start k →
      AgreesUnless reason (placedStep t nested k) (placedStep t.rootOnly nested' k))
    (hvisits : Visits t start k) (fuel : Nat) (ps : List PlacedToken) :
    AgreesUnless reason (placedRun t nested fuel k ps)
      (placedRun t.rootOnly nested' fuel k ps) := by
  induction fuel generalizing k ps with
  | zero => exact .agrees _
  | succ fuel ih =>
    rw [placedRun, placedRun]
    refine (hstep k hvisits).bind fun next hnext => ?_
    cases next with
    | none => exact .agrees _
    | some answer =>
      obtain ⟨more, k'⟩ := answer
      exact ih (hvisits.tail (next?_of_placedStep hnext)) _

/-- **A scan whose nested scans begin at the root only** gives what the scan gives, or the scan asks
for a further state and this one ends there. -/
theorem placedScanFrom_agreesUnless (t : ReadyTable) (depth : Nat) (text : List Char) :
    AgreesUnless (t.AsksForState text) (placedScanFrom t depth text [rootState])
      (placedScanFrom t.rootOnly depth text [rootState]) := by
  induction depth generalizing text with
  | zero => exact .agrees _
  | succ depth ih =>
    rw [placedScanFrom, placedScanFrom]
    dsimp only
    rw [t.fuelFor_rootOnly]
    refine placedRun_agreesUnless (fun k hvisits => placedStep_agreesUnless ?_ ?_) .refl _ _
    · intro r m parts state group s hfirst haction hpart hgroup
      exact .here (.intro hvisits hfirst haction hpart hgroup)
    · intro r m parts group s hfirst haction hpart hgroup
      have hinside := ih s.text
      have hnests : t.Nests text none s := .intro hvisits hfirst haction hpart hgroup
      generalize placedScanFrom t depth s.text [rootState] = answer at hinside
      generalize placedScanFrom t.rootOnly depth s.text [rootState] = answer' at hinside
      cases hinside with
      | agrees => exact .agrees _
      | refused hasks => exact .refused (.inside hnests hasks)

/-! ## Where nothing is refused -/

/-- Where a run comes to its end, every step on the way was made. -/
theorem exists_placedStep_of_placedRun {nested : PlacedNested} {k k' : Config}
    (hvisits : Visits t k k') {fuel : Nat} {ps qs : List PlacedToken}
    (h : placedRun t nested fuel k ps = .ok qs) : ∃ next, placedStep t nested k' = .ok next := by
  induction hvisits using Relation.ReflTransGen.head_induction_on generalizing fuel ps with
  | refl =>
    cases fuel with
    | zero => cases h
    | succ fuel =>
      rw [placedRun] at h
      obtain ⟨next, hstep, -⟩ := exists_ok_of_bind h
      exact ⟨next, hstep⟩
  | @head k k₁ hnext _ ih =>
    cases fuel with
    | zero => cases h
    | succ fuel =>
      rw [placedRun] at h
      obtain ⟨next, hstep, hrest⟩ := exists_ok_of_bind h
      have hthen := hnext.symm.trans (next?_of_placedStep hstep)
      cases next with
      | none => cases hthen
      | some answer =>
        obtain ⟨more, k₂⟩ := answer
        obtain rfl := Option.some.inj hthen
        exact ih hrest

theorem exists_placedTokens_of_mem {nested : PlacedNested} {m : Pattern.Match} {parts : List Part}
    {first group : Nat} {p : Part} (hp : (p, group) ∈ parts.zipIdx first) {ps : List PlacedToken}
    (h : groupPlacedTokens nested m first (parts.map Part.rootOnly) = .ok ps) :
    ∃ qs, p.rootOnly.placedTokens nested m group = .ok qs := by
  induction parts generalizing first ps with
  | nil => cases hp
  | cons q parts ih =>
    rw [List.map_cons, groupPlacedTokens] at h
    obtain ⟨here, hhere, h⟩ := exists_ok_of_bind h
    obtain ⟨rest, hrest, -⟩ := exists_ok_of_bind h
    rw [List.zipIdx_cons] at hp
    rcases List.mem_cons.1 hp with heq | hp
    · obtain ⟨rfl, rfl⟩ := Prod.mk.inj heq
      exact ⟨here, hhere⟩
    · exact ih hp hrest

/-- Where a scan by the changed table comes to its end, the groups on the way that are scanned on
their own are scanned from the root. -/
theorem exists_placedScanFrom_of_nests {text : List Char} {state : Option String}
    {s : Pattern.Span} (hnests : t.Nests text state s) {depth : Nat} {ps : List PlacedToken}
    (h : placedScanFrom t.rootOnly (depth + 1) text [rootState] = .ok ps) :
    state = none ∧ ∃ qs, placedScanFrom t.rootOnly depth s.text [rootState] = .ok qs := by
  obtain ⟨hvisits, hfirst, haction, hpart, hgroup⟩ := hnests
  obtain ⟨next, hstep⟩ := exists_placedStep_of_placedRun (visits_rootOnly.2 hvisits) h
  rename_i k r m parts group
  unfold placedStep at hstep
  rw [firstMatch?_rootOnly, hfirst] at hstep
  have hgroups : r.rootOnly.action = .groups (parts.map Part.rootOnly) := by
    rw [ReadyRule.rootOnly, haction]
    rfl
  simp only [Option.map_some, hgroups, Action.placedTokens] at hstep
  obtain ⟨tokens, htokens, -⟩ := exists_ok_of_bind hstep
  obtain ⟨qs, hqs⟩ := exists_placedTokens_of_mem hpart htokens
  cases state with
  | some state => simp [Part.rootOnly, Part.placedTokens, hgroup] at hqs
  | none =>
    simp only [Part.rootOnly, Part.placedTokens, hgroup] at hqs
    refine ⟨rfl, ?_⟩
    cases hnested : placedScanFrom t.rootOnly depth s.text [rootState] with
    | error fault =>
      have hnested' : placedScanFrom t.rootOnly depth s.text (Option.toList none ++ [rootState]) =
          .error fault := hnested
      rw [hnested'] at hqs
      cases hqs
    | ok inner => exact ⟨inner, rfl⟩

/-- **A scan that gives tokens has not asked for a further state.** -/
theorem not_asksForState_of_placedScanFrom {depth : Nat} {text : List Char}
    {ps : List PlacedToken} (h : placedScanFrom t.rootOnly depth text [rootState] = .ok ps) :
    ¬ t.AsksForState text := by
  intro hasks
  induction hasks generalizing depth ps with
  | here hnests =>
    cases depth with
    | zero => cases h
    | succ depth => cases (exists_placedScanFrom_of_nests hnests h).1
  | inside hnests _ ih =>
    cases depth with
    | zero => cases h
    | succ depth =>
      obtain ⟨-, qs, hqs⟩ := exists_placedScanFrom_of_nests hnests h
      exact ih hqs

/-- What a table gives for a text, and what it gives when its nested scans begin at the root only:
the same tokens at the same places, or none where a further state is asked for. -/
theorem placedScan_rootOnly {text : List Char} {ps : List PlacedToken}
    (h : placedScan t text = .ok ps) :
    (¬ t.AsksForState text ∧ placedScan t.rootOnly text = .ok ps) ∨
      (t.AsksForState text ∧ placedScan t.rootOnly text = .error .nestedState) := by
  have hboth := placedScanFrom_agreesUnless t (text.length + 2) text
  have hnone : ∀ {qs}, placedScan t.rootOnly text = .ok qs → ¬ t.AsksForState text :=
    fun h => not_asksForState_of_placedScanFrom h
  change AgreesUnless _ (placedScan t text) (placedScan t.rootOnly text) at hboth
  rw [h] at hboth
  generalize placedScan t.rootOnly text = answer at hboth hnone
  cases hboth with
  | agrees => exact .inl ⟨hnone rfl, rfl⟩
  | refused hasks => exact .inr ⟨hasks, rfl⟩

end Scanner
end DocHighlighter
