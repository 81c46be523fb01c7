/-
# How groups open

What stands after an opening parenthesis and a question mark: a name, flags, a
look to either side, a condition, a comment (`Opening`).
-/

import DocHighlighter.Pattern.Reading

namespace DocHighlighter
namespace Pattern

open Reader

/-- Whether a letter switches a flag. -/
def isFlag (c : Char) : Bool :=
  ['i', 'L', 'm', 's', 'x', 'a', 't', 'u'].contains c

/-- The flags that letters stand for. -/
def flagsOf (letters : List Char) : Flags where
  ignoreCase := letters.contains 'i'
  dotAll := letters.contains 's'
  multiLine := letters.contains 'm'
  verbose := letters.contains 'x'
  ascii := letters.contains 'a'

/-- A fault at a sign among flags. -/
def refuseFlag {α : Type} (cause : Cause) : Sign → Reader α
  | .char c => refuse (if Text.isLetter c then .unknownFlag else cause) 1
  | s => refuse cause s.written.length

/-- Reads flags switched on, from a letter already taken: the letters and the
character that ends them. -/
def readFlagsOn : (fuel : Nat) → (c : Char) → List Char → Reader (List Char × Char)
  | 0, c, letters => return (letters, c)
  | fuel + 1, c, letters => do
    if c == 'L' then refuse .localeFlag
    let letters := c :: letters
    if (c == 'a' && letters.contains 'u') || (c == 'u' && letters.contains 'a') then
      refuse .incompatibleFlags
    match ← take with
    | none => refuse .missingFlagEnd
    | some (.char d) =>
      if d == ')' || d == '-' || d == ':' then return (letters, d)
      if isFlag d then readFlagsOn fuel d letters
      else refuseFlag .missingFlagEnd (.char d)
    | some s => refuseFlag .missingFlagEnd s

/-- Reads flags switched off, from a letter already taken, up to the colon. -/
def readFlagsOff : (fuel : Nat) → (c : Char) → List Char → Reader (List Char)
  | 0, _, letters => return letters
  | fuel + 1, c, letters => do
    if c == 'a' || c == 'u' || c == 'L' then refuse .typeFlagOff
    let letters := c :: letters
    match ← take with
    | none => refuse .missingColon
    | some (.char d) =>
      if d == ':' then return letters
      if isFlag d then readFlagsOff fuel d letters
      else refuseFlag .missingColon (.char d)
    | some s => refuseFlag .missingColon s

/-- Reads flags from a first sign already taken: absent if they hold for the
whole pattern, else the flags switched on and off for a body. -/
def readFlags (c : Char) : Reader (Option (Flags × Flags)) := do
  let fuel := (← left) + 1
  let (on, closer) ← if c == '-' then pure ([], '-') else readFlagsOn fuel c []
  if closer == ')' then
    modify fun r => { r with flags := r.flags.union (flagsOf on), letters := on ++ r.letters }
    return none
  if on.contains 't' then refuse .globalFlagOn 1
  let off ←
    if closer == '-' then
      match ← take with
      | none => refuse .missingFlag
      | some (.char d) =>
        if isFlag d then readFlagsOff fuel d [] else refuseFlag .missingFlag (.char d)
      | some s => refuseFlag .missingFlag s
    else pure []
  if on.any off.contains then refuse .flagOnAndOff 1
  return some (flagsOf on, { flagsOf off with ascii := on.contains 'u' })

/-- What the opening of a group announces. -/
inductive Opening where
  /-- A group that captures, with its name if it has one. -/
  | capture (name : Option String)
  | plain
  | atomic
  | scoped (on off : Flags)
  | ahead (negated : Bool)
  | behind (negated : Bool)
  | condition (group : Nat)
  /-- A reference to a named group; the group ends with it. -/
  | reference (group : Nat)
  /-- Flags for the whole pattern; the group ends with them. -/
  | flags
  /-- A comment; the group ends with it. -/
  | comment

/-- The group of a name. -/
def readKnownName (name : List Char) : Reader Nat := do
  checkName name
  let text := String.ofList name
  match (← get).names.lookup text with
  | some group => return group
  | none => refuse (.unknownGroupName text) (name.length + 1)

/-- Reads what a `P` after a question mark announces. -/
def readNamed : Reader Opening := do
  if ← takeIf '<' then
    let name ← takeName '>' "group name"
    checkName name
    return .capture (some (String.ofList name))
  if ← takeIf '=' then
    let name ← takeName ')' "group name"
    let group ← readKnownName name
    if !(← isClosed group) then refuse .openReference (name.length + 1)
    checkBehind group
    return .reference group
  match ← take with
  | none => refuse .unexpectedEnd
  | some s =>
    let written := s.written
    refuse (.unknownExtension (String.ofList ('?' :: 'P' :: written))) (written.length + 2)

/-- Reads the group that a condition asks for. -/
def readCondition : Reader Nat := do
  let name ← takeName ')' "group name"
  let back := name.length + 1
  let group ←
    if Text.isName name then readKnownName name
    else
      match Text.wholeNumber? name with
      | none => refuse (.badGroupName (String.ofList name)) back
      | some group =>
        if group == 0 then refuse .badGroupNumber back
        if 1073741823 ≤ group then refuse (.invalidReference group) back
        let place := (← position) - back
        modify fun r =>
          if r.asked.any (·.1 == group) then r
          else { r with asked := r.asked ++ [(group, place)] }
        pure group
  checkBehind group
  return group

/-- Reads what a question mark announces, in a group opened at `start`. -/
def readExtension (start : Nat) : Reader Opening := do
  match ← take with
  | none => refuse .unexpectedEnd
  | some (.char 'P') => readNamed
  | some (.char ':') => return .plain
  | some (.char '#') =>
    if ← skipTo ')' ((← left) + 1) then return .comment
    refuse .unterminatedComment ((← position) - start)
  | some (.char '=') => return .ahead false
  | some (.char '!') => return .ahead true
  | some (.char '<') =>
    match ← take with
    | none => refuse .unexpectedEnd
    | some (.char '=') => return .behind false
    | some (.char '!') => return .behind true
    | some s =>
      let written := s.written
      refuse (.unknownExtension (String.ofList ('?' :: '<' :: written))) (written.length + 2)
  | some (.char '(') => return .condition (← readCondition)
  | some (.char '>') => return .atomic
  | some s =>
    match s with
    | .char c =>
      if isFlag c || c == '-' then
        match ← readFlags c with
        | none => return .flags
        | some (on, off) => return .scoped on off
      else refuse (.unknownExtension (String.ofList ['?', c])) 2
    | _ => refuse (.unknownExtension (String.ofList ('?' :: s.written))) (s.written.length + 1)

end Pattern
end DocHighlighter
