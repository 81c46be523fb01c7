/-
# Scanning

A scanner goes through a text with a stack of states.  At each place it tries
the rules of the top state in order and takes the first that matches, even the
empty text.  Where none matches, a newline sends it back to the root state, and
any other character becomes an error token (`step`).

A run is a sequence of steps.  Steps that match nothing may follow one another
without end, so a run takes a fuel (`fuelFor`): as many steps for each place of
the text as the table has states, and some more.  A run that uses it up is
reported as endless.

A group of a match can be scanned on its own, by the same table and from the
start; how deep that goes is limited by the length of the text.
-/

import DocHighlighter.Pattern.Match
import DocHighlighter.Scanner.Rule

namespace DocHighlighter
namespace Scanner

open Text (Cursor)

/-- Why a text cannot be scanned. -/
inductive ScanFault where
  /-- Steps follow one another without an end. -/
  | endless
  /-- A nested scan from a state of its own is not available. -/
  | nestedState
  deriving DecidableEq

/-- Where a run stands: a place in the text and the stack of states, top first. -/
structure Config where
  cursor : Cursor
  stack : List String

/-- The name of the state that every stack begins with. -/
def rootState : String := "root"

/-- Makes one move. -/
def Move.apply : Move → List String → List String
  | .pop, _ :: below :: rest => below :: rest
  | .pop, stack => stack
  | .again, top :: rest => top :: top :: rest
  | .again, [] => []
  | .enter state, stack => state :: stack

/-- The rules of a state. -/
def ReadyTable.rules (t : ReadyTable) (state : String) : List ReadyRule :=
  (t.lookup state).getD []

/-- The rules that are tried under a stack. -/
def ReadyTable.active (t : ReadyTable) (stack : List String) : List ReadyRule :=
  match stack with
  | [] => []
  | top :: _ => t.rules top

/-- The first rule that matches at a place, with its match. -/
def firstMatch? (rules : List ReadyRule) (c : Cursor) : Option (ReadyRule × Pattern.Match) :=
  rules.findSome? fun r => (r.pattern.matchAt? c).map (r, ·)

/-- A way to scan a text on its own, from a stack of states. -/
abbrev Nested := List Char → List String → Except ScanFault (List Token)

/-- The tokens that one group of a match gives. -/
def Part.tokens (nested : Nested) (m : Pattern.Match) (group : Nat) :
    Part → Except ScanFault (List Token)
  | .token kind =>
    match m.captures.get? group with
    | some s => if s.text.isEmpty then .ok [] else .ok [.ofChars kind s.text]
    | none => .ok []
  | .nested state =>
    match m.captures.get? group with
    | some s => nested s.text (state.toList ++ [rootState])
    | none => .ok []
  | .refused => if (m.captures.get? group).isSome then .error .nestedState else .ok []

/-- The tokens that the groups of a match give, from the given group on. -/
def groupTokens (nested : Nested) (m : Pattern.Match) :
    (group : Nat) → List Part → Except ScanFault (List Token)
  | _, [] => .ok []
  | group, p :: parts => do
    let here ← p.tokens nested m group
    let rest ← groupTokens nested m (group + 1) parts
    return here ++ rest

/-- The tokens that a match gives. -/
def Action.tokens (nested : Nested) (c : Cursor) (m : Pattern.Match) :
    Action → Except ScanFault (List Token)
  | .token kind => .ok [.ofChars kind (c.upTo m.stop)]
  | .nonempty kind =>
    let text := c.upTo m.stop
    if text.isEmpty then .ok [] else .ok [.ofChars kind text]
  | .groups parts => groupTokens nested m 1 parts
  | .silent => .ok []

/-- What a step leads to: its tokens and where the run then stands, or the end. -/
def step (t : ReadyTable) (nested : Nested) (k : Config) :
    Except ScanFault (Option (List Token × Config)) :=
  match firstMatch? (t.active k.stack) k.cursor with
  | some (r, m) => do
    let tokens ← r.action.tokens nested k.cursor m
    return some (tokens, ⟨m.stop, r.moves.foldl (fun s m => m.apply s) k.stack⟩)
  | none =>
    match k.cursor.next? with
    | none => .ok none
    | some (c, d) =>
      if c == '\n' then .ok (some ([⟨.whitespace, "\n"⟩], ⟨d, [rootState]⟩))
      else .ok (some ([⟨.error, c.toString⟩], ⟨d, k.stack⟩))

/-- Makes steps until the run ends; the tokens so far are given latest first. -/
def run (t : ReadyTable) (nested : Nested) :
    (fuel : Nat) → Config → List Token → Except ScanFault (List Token)
  | 0, _, _ => .error .endless
  | fuel + 1, k, tokens => do
    match ← step t nested k with
    | none => return tokens.reverse
    | some (more, k) => run t nested fuel k (more.reverse ++ tokens)

/-- The number of steps that a run over a text of `n` characters may take. -/
def ReadyTable.fuelFor (t : ReadyTable) (n : Nat) : Nat :=
  (n + 1) * (4 * t.length + 8)

/-- Scans a text from a stack of states, nested scans included. -/
def scanFrom (t : ReadyTable) : (depth : Nat) → Nested
  | 0 => fun _ _ => .error .endless
  | depth + 1 => fun text stack =>
    run t (scanFrom t depth) (t.fuelFor text.length) ⟨Cursor.start text, stack⟩ []

/-- Scans a text from the root state. -/
def scan (t : ReadyTable) (text : List Char) : Except ScanFault (List Token) :=
  scanFrom t (text.length + 2) text [rootState]

end Scanner
end DocHighlighter
