/-
# Matching

`Expr.run` looks for the first way to match an expression at a place, in the
order of preference that the expression states, such that what follows, given
as the continuation, succeeds too.  Failing in the continuation makes it try
the next way.

A repeated body is first matched as often as it must be, then as often as it
may be.  An optional turn is not begun where the turn before it began: a body
that matches the empty text gets one such turn and no more, so the number of
turns is at most the number of characters to come, and two (`fuel`).
-/

import DocHighlighter.Pattern.Basic
import DocHighlighter.Text.Case
import DocHighlighter.Text.CharClass
import DocHighlighter.Text.Cursor

namespace DocHighlighter
namespace Pattern

open Text (Cursor)

/-- The part of a text that a group matched. -/
structure Span where
  start : Cursor
  stop : Cursor

/-- The text of a span. -/
def Span.text (s : Span) : List Char :=
  s.start.upTo s.stop

/-- The spans of the groups matched so far, latest first. -/
abbrev Captures := List (Nat × Span)

/-- The latest span of a group. -/
def Captures.get? (g : Captures) (n : Nat) : Option Span :=
  (g.find? (·.1 == n)).map (·.2)

/-- Where a match ends and what its groups matched. -/
structure Match where
  stop : Cursor
  captures : Captures

/-- What has to succeed after an expression has matched. -/
abbrev Continuation := Cursor → Captures → Option Match

/-- The continuation that is content. -/
def accept : Continuation := fun c g => some ⟨c, g⟩

/-- A way to match one turn of a repeated body before a continuation. -/
abbrev Turn := Cursor → Captures → Continuation → Option Match

/-- Whether a character belongs to a category. -/
def Category.holds (ascii : Bool) (kind : Category) (c : Char) : Bool :=
  if ascii && 0x80 ≤ c.toNat then false
  else match kind with
    | .digit => Text.isDigit c
    | .blank => Text.isBlank c && !(ascii && 0x1c ≤ c.toNat && c.toNat ≤ 0x1f)
    | .word => Text.isWord c
    | .nameStart => Text.isNameStart c
    | .namePart => Text.isNamePart c

/-- Whether two characters are the same under the flags. -/
def Flags.same (f : Flags) (a b : Char) : Bool :=
  if f.ignoreCase then
    if f.ascii then a.toLower == b.toLower else Text.sameIgnoringCase a b
  else a == b

/-- Whether a character belongs to a member of a set. -/
def SetItem.holds (f : Flags) : SetItem → Char → Bool
  | .single a, c => f.same a c
  | .range lo hi, c =>
    (lo ≤ c && c ≤ hi) || (f.ignoreCase &&
      (if f.ascii then (lo ≤ c.toLower && c.toLower ≤ hi) || (lo ≤ c.toUpper && c.toUpper ≤ hi)
       else Text.inRangeIgnoringCase lo hi c))
  | .category kind negated, c => kind.holds f.ascii c != negated

/-- Whether a word begins or ends at a place. -/
def isWordEdge (ascii : Bool) (c : Cursor) : Bool :=
  let word := Category.word.holds ascii
  c.before.head?.any word != c.after.head?.any word

/-- Whether a place is of the kind asked for.  An empty text has no word edge
and no place that is not one. -/
def Anchor.holds (f : Flags) (c : Cursor) : Anchor → Bool
  | .textStart => c.atStart
  | .textEnd => c.atEnd
  | .lineStart => if f.multiLine then c.atLineStart else c.atStart
  | .lineEnd => if f.multiLine then c.atLineEnd else c.atEnd || c.after == ['\n']
  | .wordEdge => isWordEdge f.ascii c
  | .notWordEdge => !(c.atStart && c.atEnd) && !isWordEdge f.ascii c

/-- Matches one character of a class. -/
def oneChar (p : Char → Bool) (c : Cursor) (g : Captures) (k : Continuation) : Option Match :=
  match c.next? with
  | some (a, d) => if p a then k d g else none
  | none => none

/-- Matches a text, character by character. -/
def sameText (same : Char → Char → Bool) : List Char → Cursor → Option Cursor
  | [], c => some c
  | a :: rest, c =>
    match c.next? with
    | some (b, d) => if same a b then sameText same rest d else none
    | none => none

/-- The turns that a repeated body must have. -/
def requiredTurns (turn : Turn) (k : Continuation) : Nat → Continuation
  | 0 => k
  | n + 1 => fun c g => turn c g (requiredTurns turn k n)

/-- Whether one more optional turn may begin at a place. -/
def mayTurn (left : Option Nat) (last : Option Nat) (c : Cursor) : Bool :=
  left != some 0 && last != some c.pos

/-- The optional turns of a greedy repetition: one more turn first, else none. -/
def greedyTurns (turn : Turn) (k : Continuation) :
    (fuel : Nat) → (left last : Option Nat) → Continuation
  | 0, _, _ => k
  | fuel + 1, left, last => fun c g =>
    if mayTurn left last c then
      match turn c g (greedyTurns turn k fuel (left.map (· - 1)) (some c.pos)) with
      | some m => some m
      | none => k c g
    else k c g

/-- The optional turns of a lazy repetition: no more turn first, else one. -/
def lazyTurns (turn : Turn) (k : Continuation) :
    (fuel : Nat) → (left last : Option Nat) → Continuation
  | 0, _, _ => k
  | fuel + 1, left, last => fun c g =>
    match k c g with
    | some m => some m
    | none =>
      if mayTurn left last c then
        turn c g (lazyTurns turn k fuel (left.map (· - 1)) (some c.pos))
      else none

/-- The turns that a possessive repetition must have, each taken once and for all. -/
def heldTurns (turn : Turn) : Nat → Cursor → Captures → Option Match
  | 0, c, g => some ⟨c, g⟩
  | n + 1, c, g =>
    match turn c g accept with
    | some m => heldTurns turn n m.stop m.captures
    | none => none

/-- The optional turns of a possessive repetition, as many as there are. -/
def allTurns (turn : Turn) : (fuel : Nat) → (left last : Option Nat) → Cursor → Captures → Match
  | 0, _, _, c, g => ⟨c, g⟩
  | fuel + 1, left, last, c, g =>
    if mayTurn left last c then
      match turn c g accept with
      | some m => allTurns turn fuel (left.map (· - 1)) (some c.pos) m.stop m.captures
      | none => ⟨c, g⟩
    else ⟨c, g⟩

/-- Matches a repeated body. -/
def repeated (least : Nat) (most : Option Nat) (eagerness : Eagerness) (turn : Turn)
    (c : Cursor) (g : Captures) (k : Continuation) : Option Match :=
  let fuel := c.remaining + 2
  let left := most.map (· - least)
  match eagerness with
  | .greedy => requiredTurns turn (greedyTurns turn k fuel left none) least c g
  | .lazy => requiredTurns turn (lazyTurns turn k fuel left none) least c g
  | .possessive =>
    match heldTurns turn least c g with
    | some m =>
      let m := allTurns turn fuel left none m.stop m.captures
      k m.stop m.captures
    | none => none

/-- Goes on after looking whether a body matches, without moving. -/
def looked (negated : Bool) (found : Option Match) (c : Cursor) (g : Captures)
    (k : Continuation) : Option Match :=
  match found with
  | some m => if negated then none else k c m.captures
  | none => if negated then k c g else none

/-- The first way to match an expression at a place before a continuation. -/
def Expr.run (f : Flags) : Expr → Turn
  | .empty, c, g, k => k c g
  | .char a, c, g, k => oneChar (f.same a) c g k
  | .any, c, g, k => oneChar (fun a => f.dotAll || a != '\n') c g k
  | .oneOf negated items, c, g, k =>
    oneChar (fun a => (items.any fun i => i.holds f a) != negated) c g k
  | .anchor a, c, g, k => if a.holds f c then k c g else none
  | .seq a b, c, g, k => a.run f c g fun d h => b.run f d h k
  | .alt a b, c, g, k =>
    match a.run f c g k with
    | some m => some m
    | none => b.run f c g k
  | .group n a, c, g, k => a.run f c g fun d h => k d ((n, ⟨c, d⟩) :: h)
  | .scoped on off a, c, g, k => a.run ((f.union on).diff off) c g k
  | .turns least most eagerness a, c, g, k =>
    repeated least most eagerness (fun d h k => a.run f d h k) c g k
  | .ahead negated a, c, g, k => looked negated (a.run f c g accept) c g k
  | .behind width negated a, c, g, k =>
    looked negated ((c.back? width).bind fun b => a.run f b g accept) c g k
  | .atomic a, c, g, k =>
    match a.run f c g accept with
    | some m => k m.stop m.captures
    | none => none
  | .backref n, c, g, k =>
    match g.get? n with
    | some s =>
      let same := if f.ignoreCase then fun a b => Text.lower a == Text.lower b else (· == ·)
      match sameText same s.text c with
      | some d => k d g
      | none => none
    | none => none
  | .ifGroup n yes no, c, g, k =>
    if (g.get? n).isSome then yes.run f c g k else no.run f c g k

end Pattern

/-- The match of a pattern at a place, if there is one. -/
def Pattern.matchAt? (p : Pattern) (c : Text.Cursor) : Option Pattern.Match :=
  p.expr.run p.flags c [] Pattern.accept

/-- Whether a pattern matches the empty text. -/
def Pattern.matchesEmpty (p : Pattern) : Bool :=
  (p.matchAt? (Text.Cursor.start [])).isSome

end DocHighlighter
