/-
# The written form of patterns

Reads a written pattern into an expression, or says why it cannot
(`Pattern.read`).

The nested readers take a fuel.  Each nested call has read a sign or more that
its caller had not, so twice the number of signs, and some, never runs out.
-/

import DocHighlighter.Pattern.Reading.Set
import DocHighlighter.Pattern.Reading.Opening

namespace DocHighlighter
namespace Pattern

open Reader

/-- The number that some digits write, if there are any and it can be counted. -/
def turnCount (digits : List Char) : Reader (Option Nat) := do
  if digits.isEmpty then return none
  if Text.digitLimit < digits.length then throw (.tooManyDigits digits.length)
  let n := Text.digitsValue 10 digits
  if 4294967295 ≤ n then throw .tooManyTurns
  return some n

/-- Reads the bounds of a repetition whose brace has been taken; absent, and with
nothing taken, if what follows is not of that form. -/
def readBounds : Reader (Option (Nat × Option Nat)) := do
  if ← nextIs '\x7d' then return none
  let here ← get
  let lo ← takeWhile Char.isDigit (← left)
  let comma ← takeIf ','
  let hi ← if comma then takeWhile Char.isDigit (← left) else pure lo
  if !(← takeIf '\x7d') then
    set here
    return none
  let least := (← turnCount lo).getD 0
  let most ← turnCount hi
  if let some m := most then
    if m < least then refuse .leastOverMost ((← position) - here.pos)
  return some (least, most)

/-- The bounds of a repetition that opens with the given character. -/
def readRepeat (c : Char) : Reader (Option (Nat × Option Nat)) := do
  match c with
  | '?' => return some (0, some 1)
  | '*' => return some (0, none)
  | '+' => return some (1, none)
  | _ => readBounds

/-- The eagerness that follows the bounds of a repetition. -/
def readEagerness : Reader Eagerness := do
  if ← takeIf '?' then return .lazy
  if ← takeIf '+' then return .possessive
  return .greedy

/-- Opens a group and gives its number. -/
def openGroup (name : Option String) : Reader Nat := do
  let r ← get
  let group := r.groups.size + 1
  let r := { r with groups := r.groups.push none }
  match name with
  | none => set r
  | some text =>
    match r.names.lookup text with
    | some earlier => refuse (.redefinedGroup text group earlier) (text.length + 1)
    | none => set { r with names := (text, group) :: r.names }
  return group

/-- The width of an expression among the groups read so far. -/
def readWidth (e : Expr) : Reader Width := do
  let groups := (← get).groups
  return e.width fun n => ((groups[n - 1]?).join).getD ⟨0, some 0⟩

/-- Closes a group with its body. -/
def closeGroup (group : Nat) (body : Expr) : Reader Unit := do
  let width ← readWidth body
  modify fun r => { r with groups := r.groups.setIfInBounds (group - 1) (some width) }

/-- The fault of a look behind with a body of the given width, if it has one. -/
def Width.behindFault? (width : Width) : Option Fault :=
  if 4294967295 < width.least then some .farBehind
  else if width.most != some width.least then some .unevenBehind
  else none

/-- The expression that looks behind for a body, with the fault of the first look behind that
opened before it.  Its own fault comes before those of the look behinds inside the body. -/
def behindExpr (before : Option Fault) (negated : Bool) (body : Expr) : Reader Expr := do
  let width ← readWidth body
  if let some fault := width.behindFault? then
    modify fun r => { r with behindFault := some (before.getD fault) }
  return .behind width.least negated body

/-- Takes the parenthesis that closes a group opened at `start`. -/
def takeClose (start : Nat) : Reader Unit := do
  if !(← takeIf ')') then refuse .unterminatedGroup ((← position) - start)

mutual

/-- Reads alternatives up to a closing parenthesis or the end. -/
def readAlternatives : (fuel : Nat) → (verbose nested : Bool) → Reader Expr
  | 0, _, _ => return .empty
  | fuel + 1, verbose, nested => do
    let one ← readItems fuel verbose (!nested) []
    readMore fuel verbose nested [one]

/-- Reads further alternatives after those read so far, latest first. -/
def readMore : (fuel : Nat) → (verbose nested : Bool) → List Expr → Reader Expr
  | 0, _, _, read => return .altAll read.reverse
  | fuel + 1, verbose, nested, read => do
    if ← takeIf '|' then
      let r ← get
      let verbose := if nested then verbose else r.flags.verbose
      let one ← readItems fuel verbose false []
      readMore fuel verbose nested (one :: read)
    else return .altAll read.reverse

/-- Reads a sequence, after the items read so far, latest first.  Flags for the
whole pattern may stand only before the items of the first sequence. -/
def readItems : (fuel : Nat) → (verbose first : Bool) → List Item → Reader Expr
  | 0, _, _, read => return .seqAll (read.reverse.map (·.expr))
  | fuel + 1, verbose, first, read => do
    let goOn (i : Item) : Reader Expr := readItems fuel verbose first (i :: read)
    match ← peek with
    | none => return .seqAll (read.reverse.map (·.expr))
    | some (.char '|') => return .seqAll (read.reverse.map (·.expr))
    | some (.char ')') => return .seqAll (read.reverse.map (·.expr))
    | some s =>
      let _ ← take
      match s with
      | .dangling => goOn ⟨.char '\\', .plain⟩
      | .escape c => goOn (← readEscape c)
      | .char c =>
        if verbose && [' ', '\t', '\n', '\r', '\x0b', '\x0c'].contains c then
          readItems fuel verbose first read
        else if verbose && c == '#' then
          let _ ← skipTo '\n' ((← left) + 1)
          readItems fuel verbose first read
        else if c == '[' then goOn ⟨← readSet, .plain⟩
        else if c == '.' then goOn ⟨.any, .plain⟩
        else if c == '^' then goOn ⟨.anchor .lineStart, .anchor⟩
        else if c == '$' then goOn ⟨.anchor .lineEnd, .anchor⟩
        else if c == '*' || c == '+' || c == '?' || c == '\x7b' then
          let start := (← position) - 1
          match ← readRepeat c with
          | none => goOn ⟨.char c, .plain⟩
          | some (least, most) =>
            let back := (← position) - start
            match read with
            | [] => refuse .nothingToRepeat back
            | item :: before =>
              if item.kind == .anchor then refuse .nothingToRepeat back
              if item.kind == .repeated then refuse .multipleRepeat back
              let eagerness ← readEagerness
              readItems fuel verbose first
                (⟨.turns least most eagerness item.expr, .repeated⟩ :: before)
        else if c == '(' then
          let start := (← position) - 1
          let opening ← if ← takeIf '?' then readExtension start else pure (.capture none)
          match opening with
          | .comment => readItems fuel verbose first read
          | .flags =>
            if !first || !read.isEmpty then
              refuse .flagsNotFirst ((← position) - start)
            let r ← get
            readItems fuel r.flags.verbose first read
          | .reference group => goOn ⟨.backref group, .plain⟩
          | .condition group =>
            let yes ← readItems fuel verbose false []
            let no ←
              if ← takeIf '|' then
                let no ← readItems fuel verbose false []
                if ← nextIs '|' then refuse .tooManyBranches
                pure no
              else pure .empty
            takeClose start
            goOn ⟨.ifGroup group yes no, .plain⟩
          | .capture name =>
            let group ← openGroup name
            let body ← readAlternatives fuel verbose true
            takeClose start
            closeGroup group body
            goOn ⟨.group group body, .plain⟩
          | .plain =>
            let body ← readAlternatives fuel verbose true
            takeClose start
            goOn ⟨body, .plain⟩
          | .atomic =>
            let body ← readAlternatives fuel verbose true
            takeClose start
            goOn ⟨.atomic body, .plain⟩
          | .scoped on off =>
            let body ← readAlternatives fuel ((verbose || on.verbose) && !off.verbose) true
            takeClose start
            goOn ⟨.scoped on off body, .plain⟩
          | .ahead negated =>
            let body ← readAlternatives fuel verbose true
            takeClose start
            goOn ⟨.ahead negated body, .plain⟩
          | .behind negated =>
            let outer := (← get).behindFrom
            let before := (← get).behindFault
            if outer.isNone then
              modify fun r => { r with behindFrom := some (r.groups.size + 1) }
            let body ← readAlternatives fuel verbose true
            modify fun r => { r with behindFrom := outer }
            takeClose start
            goOn ⟨← behindExpr before negated body, .plain⟩
        else goOn ⟨.char c, .plain⟩

end

/-- Refuses a pattern that is to know ASCII only, and is not to. -/
def checkAlphabet : Reader Unit := do
  let letters := (← get).letters
  if letters.contains 'a' && letters.contains 'u' then throw .mixedAlphabets

/-- Reads a whole pattern. -/
def readAll (fuel : Nat) (verbose : Bool) : Reader Expr := do
  let e ← readAlternatives fuel verbose false
  checkAlphabet
  if (← peek).isSome then refuse .unbalancedParenthesis
  let r ← get
  match r.asked.find? (r.groups.size < ·.1) with
  | some (group, place) => throw (.at (.invalidReference group) place)
  | none => return e

end Pattern

/-- Reads a written pattern under the given flags, to which it may add its own. -/
def Pattern.read (flags : Pattern.Flags) (written : String) :
    Except Pattern.Fault Pattern := do
  let signs := Pattern.Sign.ofText written.toList
  let start ← Pattern.Reader.checkNext ⟨signs, 0, flags, #[], [], none, [], [], none⟩
  let (expr, r) ← Pattern.readAll (2 * signs.length + 4) flags.verbose start
  if let some fault := r.behindFault then throw fault
  return ⟨expr, r.flags⟩

end DocHighlighter
