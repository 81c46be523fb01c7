/-
# Where tokens begin

A scan gives its tokens in the order of the text.  Here every token also has its place:
how many characters lie before it (`PlacedToken`).  The place of a match is that of the
run; the place of a group is where the group begins, and a nested scan counts from there.

| with places | without |
|---|---|
| `Action.placedTokens` | `Action.tokens` |
| `placedStep`, `placedRun` | `step`, `run` |
| `placedScan` | `scan` |
| `Lexer.placedTokens` | `Lexer.tokens` |

Leaving the places out gives the tokens of the scan (`Lexer.tokens_eq`).  The reader of
JSON leaves no character out (`Json.textOf_scan`), so its places are counted.
-/

import DocHighlighter.Lexer.Basic
import Mathlib.Tactic.SplitIfs

namespace DocHighlighter

/-- A token and the number of characters before it. -/
structure PlacedToken where
  place : Nat
  token : Token
  deriving DecidableEq

namespace PlacedToken

/-- A token as many characters later. -/
def shift (n : Nat) (p : PlacedToken) : PlacedToken :=
  { p with place := n + p.place }

/-- Tokens that follow one another without gaps, the first at the given place. -/
def inARow : Nat → List Token → List PlacedToken
  | _, [] => []
  | n, t :: rest => ⟨n, t⟩ :: inARow (n + t.text.toList.length) rest

theorem map_token_inARow (n : Nat) (tokens : List Token) :
    (inARow n tokens).map token = tokens := by
  induction tokens generalizing n with
  | nil => rfl
  | cons t rest ih => rw [inARow, List.map_cons, ih]

theorem map_token_map_shift (n : Nat) (ps : List PlacedToken) :
    (ps.map (shift n)).map token = ps.map token := by
  rw [List.map_map]
  rfl

end PlacedToken

namespace Scanner

/-! ## Scanning with places -/

/-- A way to scan a text on its own, from a stack of states, with places. -/
abbrev PlacedNested := List Char → List String → Except ScanFault (List PlacedToken)

/-- Such a way without the places. -/
def PlacedNested.unplaced (nested : PlacedNested) : Nested := fun text stack =>
  (nested text stack).map (List.map PlacedToken.token)

/-- The tokens that one group of a match gives, with their places. -/
def Part.placedTokens (nested : PlacedNested) (m : Pattern.Match) (group : Nat) :
    Part → Except ScanFault (List PlacedToken)
  | .token kind =>
    match m.captures.get? group with
    | some s => if s.text.isEmpty then .ok [] else .ok [⟨s.start.pos, .ofChars kind s.text⟩]
    | none => .ok []
  | .nested state =>
    match m.captures.get? group with
    | some s => (nested s.text (state.toList ++ [rootState])).map
        (List.map (PlacedToken.shift s.start.pos))
    | none => .ok []
  | .refused => if (m.captures.get? group).isSome then .error .nestedState else .ok []

/-- The tokens that the groups of a match give, from the given group on, with their places. -/
def groupPlacedTokens (nested : PlacedNested) (m : Pattern.Match) :
    (group : Nat) → List Part → Except ScanFault (List PlacedToken)
  | _, [] => .ok []
  | group, p :: parts => do
    let here ← p.placedTokens nested m group
    let rest ← groupPlacedTokens nested m (group + 1) parts
    return here ++ rest

/-- The tokens that a match gives, with their places. -/
def Action.placedTokens (nested : PlacedNested) (c : Text.Cursor) (m : Pattern.Match) :
    Action → Except ScanFault (List PlacedToken)
  | .token kind => .ok [⟨c.pos, .ofChars kind (c.upTo m.stop)⟩]
  | .nonempty kind =>
    let text := c.upTo m.stop
    if text.isEmpty then .ok [] else .ok [⟨c.pos, .ofChars kind text⟩]
  | .groups parts => groupPlacedTokens nested m 1 parts
  | .silent => .ok []

/-- What a step leads to, its tokens with their places. -/
def placedStep (t : ReadyTable) (nested : PlacedNested) (k : Config) :
    Except ScanFault (Option (List PlacedToken × Config)) :=
  match firstMatch? (t.active k.stack) k.cursor with
  | some (r, m) => do
    let tokens ← r.action.placedTokens nested k.cursor m
    return some (tokens, ⟨m.stop, r.moves.foldl (fun s m => m.apply s) k.stack⟩)
  | none =>
    match k.cursor.next? with
    | none => .ok none
    | some (c, d) =>
      if c == '\n' then
        .ok (some ([⟨k.cursor.pos, ⟨.whitespace, "\n"⟩⟩], ⟨d, [rootState]⟩))
      else .ok (some ([⟨k.cursor.pos, ⟨.error, c.toString⟩⟩], ⟨d, k.stack⟩))

/-- Makes steps until the run ends; the tokens so far are given latest first. -/
def placedRun (t : ReadyTable) (nested : PlacedNested) :
    (fuel : Nat) → Config → List PlacedToken → Except ScanFault (List PlacedToken)
  | 0, _, _ => .error .endless
  | fuel + 1, k, tokens => do
    match ← placedStep t nested k with
    | none => return tokens.reverse
    | some (more, k) => placedRun t nested fuel k (more.reverse ++ tokens)

/-- Scans a text from a stack of states, nested scans included, with places. -/
def placedScanFrom (t : ReadyTable) : (depth : Nat) → PlacedNested
  | 0 => fun _ _ => .error .endless
  | depth + 1 => fun text stack =>
    placedRun t (placedScanFrom t depth) (t.fuelFor text.length) ⟨.start text, stack⟩ []

/-- Scans a text from the root state, with places. -/
def placedScan (t : ReadyTable) (text : List Char) : Except ScanFault (List PlacedToken) :=
  placedScanFrom t (text.length + 2) text [rootState]

/-! ## Leaving the places out -/

variable {t : ReadyTable} {nested : PlacedNested} {m : Pattern.Match} {c : Text.Cursor}

theorem Part.tokens_unplaced (p : Part) (group : Nat) : p.tokens nested.unplaced m group =
    (p.placedTokens nested m group).map (List.map PlacedToken.token) := by
  cases p with
  | token kind =>
    unfold Part.tokens Part.placedTokens
    cases m.captures.get? group with
    | none => rfl
    | some s => dsimp only; split_ifs <;> rfl
  | nested state =>
    unfold Part.tokens Part.placedTokens
    cases m.captures.get? group with
    | none => rfl
    | some s =>
      dsimp only [PlacedNested.unplaced]
      cases nested s.text (state.toList ++ [rootState]) with
      | error fault => rfl
      | ok ps => exact congrArg Except.ok (PlacedToken.map_token_map_shift ..).symm
  | refused =>
    unfold Part.tokens Part.placedTokens
    split_ifs <;> rfl

theorem groupTokens_unplaced (parts : List Part) (group : Nat) :
    groupTokens nested.unplaced m group parts =
      (groupPlacedTokens nested m group parts).map (List.map PlacedToken.token) := by
  induction parts generalizing group with
  | nil => rfl
  | cons p parts ih =>
    rw [groupTokens, groupPlacedTokens, p.tokens_unplaced, ih]
    cases p.placedTokens nested m group with
    | error fault => rfl
    | ok here =>
      cases groupPlacedTokens nested m (group + 1) parts with
      | error fault => rfl
      | ok rest => exact congrArg Except.ok List.map_append.symm

theorem Action.tokens_unplaced (a : Action) : a.tokens nested.unplaced c m =
    (a.placedTokens nested c m).map (List.map PlacedToken.token) := by
  cases a with
  | token kind => rfl
  | nonempty kind =>
    unfold Action.tokens Action.placedTokens
    dsimp only
    split_ifs <;> rfl
  | groups parts => exact groupTokens_unplaced parts 1
  | silent => rfl

theorem step_unplaced (k : Config) : step t nested.unplaced k =
    (placedStep t nested k).map (Option.map fun (ps, k') => (ps.map PlacedToken.token, k')) := by
  unfold step placedStep
  cases firstMatch? (t.active k.stack) k.cursor with
  | some found =>
    obtain ⟨r, m⟩ := found
    dsimp only
    rw [r.action.tokens_unplaced]
    cases r.action.placedTokens nested k.cursor m <;> rfl
  | none =>
    cases k.cursor.next? with
    | none => rfl
    | some next =>
      dsimp only
      split_ifs <;> rfl

theorem run_unplaced (fuel : Nat) (k : Config) (ps : List PlacedToken) :
    run t nested.unplaced fuel k (ps.map PlacedToken.token) =
      (placedRun t nested fuel k ps).map (List.map PlacedToken.token) := by
  induction fuel generalizing k ps with
  | zero => rfl
  | succ fuel ih =>
    rw [run, placedRun, step_unplaced]
    cases placedStep t nested k with
    | error fault => rfl
    | ok next =>
      cases next with
      | none => exact congrArg Except.ok (List.map_reverse ..).symm
      | some answer =>
        obtain ⟨more, k'⟩ := answer
        have happend : (more.map PlacedToken.token).reverse ++ ps.map PlacedToken.token =
            (more.reverse ++ ps).map PlacedToken.token := by
          rw [List.map_append, List.map_reverse]
        refine (congrArg (run t nested.unplaced fuel k') happend).trans ?_
        exact ih k' (more.reverse ++ ps)

theorem scanFrom_unplaced (t : ReadyTable) (depth : Nat) :
    scanFrom t depth = (placedScanFrom t depth).unplaced := by
  induction depth with
  | zero => rfl
  | succ depth ih =>
    funext text stack
    rw [scanFrom, ih]
    exact run_unplaced (t.fuelFor text.length) ⟨.start text, stack⟩ []

/-- Without their places, the tokens of a scan are those of the scan. -/
theorem scan_unplaced (t : ReadyTable) (text : List Char) :
    scan t text = (placedScan t text).map (List.map PlacedToken.token) := by
  rw [scan, scanFrom_unplaced]
  rfl

end Scanner

/-! ## The reader of JSON -/

namespace Json

namespace State

/-- The characters that a scan has read. -/
def text (s : State) : List Char :=
  Token.textOf s.done.reverse ++ Token.textOf s.queue.reverse ++ s.pending.reverse

/-- Between tokens nothing is pending, and nothing waits for a colon where none can decide. -/
structure IsOrderly (s : State) : Prop where
  between : s.mode = .between → s.pending = []
  constant : s.mode = .constant → s.queue = []
  number : ∀ isFloat, s.mode = .number isFloat → s.queue = []
  punctuation : s.mode = .punctuation → s.queue = []

variable {s : State}

theorem textOf_token (s : State) (kind : Kind) :
    (s.token kind).text.toList = s.pending.reverse := by
  simp [token, Token.ofChars]

theorem text_extend (s : State) (c : Char) (mode : Mode) :
    (s.extend c mode).text = s.text ++ [c] := by
  simp [extend, text]

theorem text_release (s : State) (f : Kind → Kind) : (s.release f).text = s.text := by
  simp [release, text, Token.textOf, ← List.map_reverse, List.flatMap_map]

theorem text_emit (hqueue : s.queue = []) (kind : Kind) : (s.emit kind).text = s.text := by
  simp [emit, text, hqueue, Token.textOf, textOf_token]

theorem text_wait (s : State) (kind : Kind) : (s.wait kind).text = s.text := by
  simp [wait, text, Token.textOf, textOf_token]

theorem text_emitOrWait (s : State) (kind : Kind) : (s.emitOrWait kind).text = s.text := by
  unfold emitOrWait
  split_ifs with hqueue
  · exact text_emit (List.isEmpty_iff.1 hqueue) kind
  · exact text_wait s kind

/-- A token that begins is the text it begins with. -/
theorem start_reads (hpending : s.pending = []) (c : Char) :
    (s.start c).IsOrderly ∧ (s.start c).text = s.text ++ [c] := by
  have hbegin : ∀ (s' : State) (mode : Mode), s'.pending = [] → s'.text = s.text →
      ({ s' with mode := mode, pending := [c] } : State).text = s.text ++ [c] := by
    intro s' mode hp ht
    rw [← ht]
    simp [text, hp]
  have hrelease : ∀ f, (s.release f).pending = [] := fun _ => hpending
  unfold start
  dsimp only
  split_ifs
  · exact ⟨⟨by simp, by simp, by simp, by simp⟩, hbegin s _ hpending rfl⟩
  · exact ⟨⟨by simp, by simp, by simp, by simp⟩, hbegin s _ hpending rfl⟩
  · exact ⟨⟨by simp, fun _ => rfl, by simp, by simp⟩,
      hbegin _ _ (hrelease id) (text_release s id)⟩
  · exact ⟨⟨by simp, by simp, fun _ _ => rfl, by simp⟩,
      hbegin _ _ (hrelease id) (text_release s id)⟩
  · exact ⟨⟨by simp, by simp, by simp, fun _ => rfl⟩,
      hbegin _ _ (hrelease _) (text_release s _)⟩
  · exact ⟨⟨by simp, by simp, by simp, fun _ => rfl⟩,
      hbegin _ _ (hrelease id) (text_release s id)⟩
  · exact ⟨⟨by simp, by simp, by simp, by simp⟩, hbegin s _ hpending rfl⟩
  · refine ⟨⟨fun _ => hpending, fun _ => rfl, fun _ _ => rfl, fun _ => rfl⟩, ?_⟩
    rw [← text_release s id]
    simp [text, release, hpending, Token.textOf]

theorem start_reads_of_ended {s' : State} (hpending : s'.pending = []) (htext : s'.text = s.text)
    (c : Char) : (s'.start c).IsOrderly ∧ (s'.start c).text = s.text ++ [c] :=
  htext ▸ start_reads hpending c

theorem pending_emitOrWait (s : State) (kind : Kind) : (s.emitOrWait kind).pending = [] := by
  unfold emitOrWait
  split_ifs <;> rfl

theorem extend_reads (s : State) (c : Char) {mode : Mode} (hbetween : mode ≠ .between)
    (hqueue : mode = .constant ∨ (∃ isFloat, mode = .number isFloat) ∨ mode = .punctuation →
      s.queue = []) : (s.extend c mode).IsOrderly ∧ (s.extend c mode).text = s.text ++ [c] :=
  ⟨⟨fun h => absurd h hbetween, fun h => hqueue (.inl h), fun f h => hqueue (.inr (.inl ⟨f, h⟩)),
    fun h => hqueue (.inr (.inr h))⟩, text_extend s c mode⟩

theorem feedString_reads (s : State) (place : StringPlace) (c : Char) :
    (s.feedString place c).IsOrderly ∧ (s.feedString place c).text = s.text ++ [c] := by
  have hstring : ∀ place', (s.extend c (.string place')).IsOrderly ∧
      (s.extend c (.string place')).text = s.text ++ [c] :=
    fun _ => extend_reads s c (by simp) (by simp)
  unfold feedString
  cases place with
  | code digits => dsimp only; split_ifs <;> exact hstring _
  | escape => exact hstring _
  | plain =>
    dsimp only
    split_ifs
    · exact hstring _
    · exact ⟨⟨fun _ => rfl, by simp [wait], by simp [wait], by simp [wait]⟩,
        (text_wait _ _).trans (text_extend s c _)⟩
    · exact hstring _

/-- **A character that is taken is read,** after what was read before it. -/
theorem feed_reads (h : s.IsOrderly) (c : Char) :
    (s.feed c).IsOrderly ∧ (s.feed c).text = s.text ++ [c] := by
  unfold feed
  split
  · next hmode => exact start_reads (h.between hmode) c
  · exact feedString_reads s _ c
  · split_ifs
    · exact extend_reads s c (by simp) (by simp)
    · exact start_reads_of_ended (pending_emitOrWait ..) (text_emitOrWait ..) c
  · next hmode =>
    split_ifs
    · exact extend_reads s c (by simp) fun _ => h.constant hmode
    · exact start_reads_of_ended rfl (text_emit (h.constant hmode) _) c
  · next isFloat hmode =>
    split_ifs
    · exact extend_reads s c (by simp) fun _ => h.number _ hmode
    · exact extend_reads s c (by simp) fun _ => h.number _ hmode
    all_goals exact start_reads_of_ended rfl (text_emit (h.number _ hmode) _) c
  · next hmode =>
    split_ifs
    · exact extend_reads s c (by simp) fun _ => h.punctuation hmode
    · exact start_reads_of_ended rfl (text_emit (h.punctuation hmode) _) c
  · split_ifs
    · exact start_reads_of_ended (pending_emitOrWait ..) (text_emitOrWait ..) c
    · exact extend_reads s c (by simp) (by simp)
  · split_ifs
    · exact extend_reads s c (by simp) (by simp)
    · refine ⟨?_, (text_emitOrWait _ _).trans (text_extend s c _)⟩
      unfold emitOrWait
      split_ifs with hqueue
      · exact ⟨fun _ => rfl, by simp [emit], by simp [emit], by simp [emit]⟩
      · exact ⟨fun _ => rfl, by simp, by simp, by simp⟩
    · exact extend_reads s c (by simp) (by simp)
  · split_ifs
    · exact extend_reads s c (by simp) (by simp)
    · exact extend_reads s c (by simp) (by simp)
    · exact start_reads_of_ended rfl ((text_emit rfl _).trans (text_release s id)) c

theorem foldl_feed_reads (h : s.IsOrderly) (text : List Char) :
    (text.foldl feed s).IsOrderly ∧ (text.foldl feed s).text = s.text ++ text := by
  induction text generalizing s with
  | nil => exact ⟨h, (List.append_nil _).symm⟩
  | cons c rest ih =>
    obtain ⟨hfeed, htext⟩ := feed_reads h c
    obtain ⟨hrest, hrestText⟩ := ih hfeed
    exact ⟨hrest, by rw [List.foldl_cons, hrestText, htext, List.append_assoc]; rfl⟩

/-- At the end all that was read has been written. -/
theorem textOf_finish (h : s.IsOrderly) : Token.textOf s.finish.done.reverse = s.text := by
  have hdone : ∀ s' : State, s'.queue = [] → s'.pending = [] → s'.text = s.text →
      Token.textOf s'.done.reverse = s.text := by
    intro s' hq hp ht
    rw [← ht]
    simp [text, hq, hp, Token.textOf]
  have hemit : ∀ kind, Token.textOf ((s.release id).emit kind).done.reverse = s.text :=
    fun kind => hdone _ rfl rfl ((text_emit rfl kind).trans (text_release s id))
  unfold finish
  dsimp only
  split
  · next hmode => exact hdone _ rfl (h.between hmode) (text_release s id)
  all_goals exact hemit _

end State

/-- **The tokens of a JSON text are the text.** -/
theorem textOf_scan (text : List Char) : Token.textOf (scan text) = text := by
  have hstart : State.IsOrderly {} :=
    ⟨fun _ => rfl, fun _ => rfl, fun _ _ => rfl, fun _ => rfl⟩
  obtain ⟨hall, htext⟩ := State.foldl_feed_reads hstart text
  exact (State.textOf_finish hall).trans htext

end Json

/-! ## Lexers -/

namespace Lexer

/-- The tokens of a prepared text, with their places. -/
def placedTokens (l : Lexer) (text : List Char) : Except LexFault (List PlacedToken) := do
  let plain ←
    match l.body with
    | .json => pure (PlacedToken.inARow 0 (Json.scan text))
    | .table flags table =>
      match table.ready flags with
      | .error fault => .error (.unreadable l.typeName fault)
      | .ok ready =>
        match Scanner.placedScan ready text with
        | .error fault => .error (.scan fault)
        | .ok tokens => pure tokens
  return plain.map fun p => { p with token := { p.token with kind := l.retag p.token } }

/-- **Without their places, the tokens of a text are those that the lexer gives.** -/
theorem tokens_eq (l : Lexer) (text : List Char) :
    l.tokens text = (l.placedTokens text).map (List.map PlacedToken.token) := by
  unfold tokens placedTokens
  cases l.body with
  | json =>
    have hplain := (PlacedToken.map_token_inARow 0 (Json.scan text)).symm
    refine congrArg Except.ok ((congrArg (List.map _) hplain).trans ?_)
    rw [List.map_map, List.map_map]
    rfl
  | table flags table =>
    dsimp only
    cases table.ready flags with
    | error fault => rfl
    | ok ready =>
      dsimp only
      rw [Scanner.scan_unplaced]
      cases Scanner.placedScan ready text with
      | error fault => rfl
      | ok ps => exact congrArg Except.ok (by rw [List.map_map, List.map_map]; rfl)

end Lexer
end DocHighlighter
