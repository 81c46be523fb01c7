/-
# Reading a written pattern sign by sign

A written pattern is cut into signs, where a backslash and the character after
it are one sign (`Sign.ofText`).  A reader takes signs from the front and keeps
what it has learnt about flags and groups (`Reading`); it stops at the first
fault.  A backslash with nothing after it is a fault as soon as it is the next
sign (`Reader.checkNext`).
-/

import DocHighlighter.Pattern.Fault
import DocHighlighter.Pattern.Width
import DocHighlighter.Text.CharClass

namespace DocHighlighter
namespace Pattern

/-- A sign of a written pattern. -/
inductive Sign where
  | char (c : Char)
  | escape (c : Char)
  /-- A backslash at the end of the pattern. -/
  | dangling
  deriving DecidableEq

/-- The signs of a written pattern. -/
def Sign.ofText : List Char → List Sign
  | [] => []
  | ['\\'] => [.dangling]
  | '\\' :: c :: rest => .escape c :: ofText rest
  | c :: rest => .char c :: ofText rest

/-- A sign as it is written. -/
def Sign.written : Sign → List Char
  | .char c => [c]
  | .escape c => ['\\', c]
  | .dangling => ['\\']

/-- What an item of a sequence is, for the repetition that may follow it. -/
inductive ItemKind where
  | plain
  | anchor
  | repeated
  deriving DecidableEq

/-- An item of a sequence. -/
structure Item where
  expr : Expr
  kind : ItemKind := .plain

/-- How far the reading has come. -/
structure Reading where
  /-- The signs to come. -/
  rest : List Sign
  /-- The position of the next sign. -/
  pos : Nat
  /-- The flags switched on for the whole pattern. -/
  flags : Flags
  /-- The widths of the groups, from group 1; absent while a group is open. -/
  groups : Array (Option Width) := #[]
  /-- The named groups. -/
  names : List (String × Nat) := []
  /-- Inside a look behind, the number of the first group opened in it. -/
  behindFrom : Option Nat := none
  /-- The groups that conditions ask for by number, and where. -/
  asked : List (Nat × Nat) := []
  /-- The letters of the flags switched on for the whole pattern. -/
  letters : List Char := []
  /-- The fault of the first look behind that has one. -/
  behindFault : Option Fault := none

/-- A reader of signs. -/
abbrev Reader := StateT Reading (Except Fault)

namespace Reader

/-- Refuses the pattern for a cause that lies `back` characters before the next sign. -/
def refuse {α : Type} (cause : Cause) (back : Nat := 0) : Reader α :=
  fun r => .error (.at cause (r.pos - back))

/-- The next sign. -/
def peek : Reader (Option Sign) :=
  fun r => .ok (r.rest.head?, r)

/-- Whether the next sign is the given character. -/
def nextIs (c : Char) : Reader Bool :=
  return (← peek) == some (.char c)

/-- The position of the next sign. -/
def position : Reader Nat :=
  fun r => .ok (r.pos, r)

/-- Refuses a lone backslash as soon as it is next. -/
def checkNext (r : Reading) : Except Fault Reading :=
  match r.rest with
  | .dangling :: _ => .error (.at .danglingEscape r.pos)
  | _ => .ok r

/-- Takes the next sign. -/
def take : Reader (Option Sign) := fun r =>
  match r.rest with
  | [] => .ok (none, r)
  | s :: rest => do
    let r ← checkNext { r with rest := rest, pos := r.pos + s.written.length }
    return (some s, r)

/-- Takes the next sign if it is the given character. -/
def takeIf (c : Char) : Reader Bool := do
  if ← nextIs c then
    let _ ← take
    return true
  return false

/-- Takes characters of a class, at most `n`. -/
def takeWhile (p : Char → Bool) : (n : Nat) → Reader (List Char)
  | 0 => return []
  | n + 1 => do
    match ← peek with
    | some (.char c) =>
      if p c then
        let _ ← take
        return c :: (← takeWhile p n)
      else return []
    | _ => return []

/-- The number of signs to come. -/
def left : Reader Nat :=
  fun r => .ok (r.rest.length, r)

/-- Takes a name up to its closing character, which is taken too. -/
def takeName (closer : Char) (what : String) : Reader (List Char) := do
  go (← left) []
where
  /-- Goes on with the characters read so far. -/
  go : Nat → List Char → Reader (List Char)
    | fuel, name => do
      match ← take with
      | none =>
        if name.isEmpty then refuse (.missingName what)
        else refuse (.unterminatedName closer) name.length
      | some s =>
        if s == .char closer then
          if name.isEmpty then refuse (.missingName what) 1
          return name
        match fuel with
        | 0 => return name
        | fuel + 1 => go fuel (name ++ s.written)

/-- Takes everything up to a character, which is taken too; whether it came. -/
def skipTo (c : Char) : (fuel : Nat) → Reader Bool
  | 0 => return false
  | fuel + 1 => do
    match ← take with
    | none => return false
    | some s => if s == .char c then return true else skipTo c fuel

/-- Refuses a name that is no identifier. -/
def checkName (name : List Char) : Reader Unit := do
  if !Text.isName name then
    refuse (.badGroupName (String.ofList name)) (name.length + 1)

/-- Whether a group has been closed. -/
def isClosed (group : Nat) : Reader Bool :=
  fun r => .ok (((r.groups[group - 1]?).join).isSome, r)

/-- The number of groups opened so far. -/
def groupCount : Reader Nat :=
  fun r => .ok (r.groups.size, r)

/-- Refuses a reference from inside a look behind to one of its own groups. -/
def checkBehind (group : Nat) : Reader Unit := do
  match (← get).behindFrom with
  | none => return
  | some first =>
    if !(← isClosed group) then refuse .openReference
    if first ≤ group then refuse .referenceWithinBehind

end Reader

end Pattern
end DocHighlighter
