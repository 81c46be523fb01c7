/-
# Arguments of a command line

Arguments are options and plain arguments.  A long option may be cut short as
long as one option begins so, and its value may follow after an equals sign; the
value of a short option may follow at once.  `--` ends the options: all that
follows is plain.  A number below zero, and what has a space in it, is plain
unless an option begins so.

Plain arguments fill slots, in order and as many at a time as stand together.
What fits nowhere is too much.
-/

import DocHighlighter.Text.Lines

namespace DocHighlighter
namespace Arguments

/-- Why arguments are refused. -/
inductive Refusal where
  /-- They are not what the program takes. -/
  | usage
  /-- The value of an option is `--`, which stands for nothing. -/
  | emptyValue
  deriving DecidableEq

/-- An option: its names, and whether it has a value. -/
structure Choice (κ : Type) where
  key : κ
  names : List String
  hasValue : Bool := false

/-- How many plain arguments belong together. -/
inductive Slot where
  | one
  | perhapsOne
  | several
  deriving DecidableEq

/-- An argument. -/
inductive Argument (κ : Type) where
  | separator
  | plain (s : String)
  | option (choice : Option (Choice κ)) (value : Option String)

/-- What arguments say. -/
structure Reading (κ : Type) where
  /-- The options, in order, with their values. -/
  options : List (κ × String) := []
  /-- The plain arguments, slot by slot. -/
  filled : List (List String) := []
  /-- Whether something fits nowhere. -/
  tooMuch : Bool := false

variable {κ : Type}

/-- The options with all their names. -/
def named (choices : List (Choice κ)) : List (String × Choice κ) :=
  choices.flatMap fun c => c.names.map fun n => (n, c)

/-- A text up to an equals sign, and what follows the sign. -/
def atEquals (s : String) : String × Option String :=
  let cs := s.toList
  match cs.dropWhile (· != '=') with
  | [] => (s, none)
  | _ :: rest => (String.ofList (cs.takeWhile (· != '=')), some (String.ofList rest))

/-- Whether a text begins with another. -/
def startsWith (start s : String) : Bool :=
  start.toList.isPrefixOf s.toList

/-- The options that an argument may be short for, with their values. -/
def abbreviated (choices : List (Choice κ)) (s : String) :
    List (Choice κ × Option String) :=
  if startsWith "--" s then
    let (start, value) := atEquals s
    ((named choices).filter fun n => startsWith start n.1).map fun n => (n.2, value)
  else
    let short := String.ofList (s.toList.take 2)
    let value := String.ofList (s.toList.drop 2)
    (named choices).filterMap fun n =>
      if n.1 == short then some (n.2, some value)
      else if startsWith s n.1 then some (n.2, none)
      else none

/-- Whether an argument is a number below zero. -/
def isNegative (s : String) : Bool :=
  match s.toList with
  | '-' :: rest =>
    match rest.dropWhile Text.isDigit with
    | [] => !rest.isEmpty
    | '.' :: fraction => !fraction.isEmpty && fraction.all Text.isDigit
    | _ => false
  | _ => false

/-- What one argument is, where options count. -/
def classify (choices : List (Choice κ)) (s : String) : Except Refusal (Argument κ) :=
  if !startsWith "-" s then .ok (.plain s)
  else
    match (named choices).lookup s with
    | some c => .ok (.option (some c) none)
    | none =>
      if s == "-" then .ok (.plain s)
      else
        let (start, value) := atEquals s
        match value, (named choices).lookup start with
        | some v, some c => .ok (.option (some c) (some v))
        | _, _ =>
          match abbreviated choices s with
          | [(c, v)] => .ok (.option (some c) v)
          | [] =>
            if isNegative s || s.toList.contains ' ' then .ok (.plain s)
            else .ok (.option none none)
          | _ => .error .usage

/-- What the arguments are. -/
def classifyAll (choices : List (Choice κ)) : List String → Except Refusal (List (Argument κ))
  | [] => .ok []
  | s :: rest =>
    if s == "--" then .ok (.separator :: rest.map .plain)
    else do
      let a ← classify choices s
      let more ← classifyAll choices rest
      return a :: more

namespace Argument

/-- Whether an argument is an option. -/
def isOption : Argument κ → Bool
  | option _ _ => true
  | _ => false

/-- Whether an argument ends the options. -/
def isSeparator : Argument κ → Bool
  | separator => true
  | _ => false

/-- A plain argument, or the end of the options, as it was written. -/
def text : Argument κ → String
  | separator => "--"
  | plain s => s
  | option _ _ => ""

end Argument

/-- How many separators are at the start of arguments. -/
def separators (args : List (Argument κ)) : Nat :=
  (args.takeWhile Argument.isSeparator).length

/-- How many arguments a slot takes, if it can be filled. -/
def Slot.count? (slot : Slot) (args : List (Argument κ)) : Option Nat :=
  let before := separators args
  match slot, args.drop before with
  | .several, .plain _ :: rest =>
    some (before + 1 + (rest.takeWhile (!·.isOption)).length)
  | .one, .plain _ :: rest => some (before + 1 + separators rest)
  | .perhapsOne, .plain _ :: rest => some (before + 1 + separators rest)
  | .perhapsOne, _ => some before
  | _, _ => none

/-- Fills slots, as many as can be: what fills them, the slots left, and the arguments left. -/
def fill : List Slot → List (Argument κ) →
    List (List String) × List Slot × List (Argument κ)
  | [], args => ([], [], args)
  | slot :: slots, args =>
    match slot.count? args with
    | none => ([], slot :: slots, args)
    | some n =>
      let (filled, left, rest) := fill slots (args.drop n)
      (((args.take n).map Argument.text).erase "--" :: filled, left, rest)

/-- The value of an option: the one it came with, else the next argument; with the arguments
after it. -/
def valueOf (value : Option String) (rest : List (Argument κ)) :
    Except Refusal (String × List (Argument κ)) :=
  let found : Except Refusal (String × List (Argument κ)) := match value, rest with
    | some v, rest => .ok (v, rest)
    | none, .plain v :: rest => .ok (v, rest)
    | none, _ => .error .usage
  match found with
  | .ok (v, rest) => if v == "--" then .error .emptyValue else .ok (v, rest)
  | .error refusal => .error refusal

/-- What the arguments say; `n` bounds the steps, and `stop` says at which option no more is
read. -/
def readFrom (stop : κ → Bool) : Nat → List Slot → List (Argument κ) → Reading κ →
    Except Refusal (List Slot × Reading κ)
  | 0, slots, _, r => .ok (slots, r)
  | n + 1, slots, args, r =>
    match args with
    | .option choice value :: rest =>
      match choice with
      | none => readFrom stop n slots rest { r with tooMuch := true }
      | some c =>
        if c.hasValue then
          match valueOf value rest with
          | .error refusal => .error refusal
          | .ok (v, rest) =>
            readFrom stop n slots rest { r with options := r.options ++ [(c.key, v)] }
        else if value.isSome then .error .usage
        else
          let r := { r with options := r.options ++ [(c.key, "")] }
          if stop c.key then .ok ([], r) else readFrom stop n slots rest r
    | args =>
      let (filled, left, rest) := fill slots args
      let r := { r with filled := r.filled ++ filled }
      if rest.any Argument.isOption then
        if rest.length < args.length then readFrom stop n left rest r
        else
          readFrom stop n left (rest.dropWhile (!·.isOption))
            { r with tooMuch := r.tooMuch || !(rest.takeWhile (!·.isOption)).isEmpty }
      else .ok (left, { r with tooMuch := r.tooMuch || !rest.isEmpty })

/-- Reads arguments: the slots that nothing filled, and what the arguments say. -/
def read (choices : List (Choice κ)) (slots : List Slot) (stop : κ → Bool) (args : List String) :
    Except Refusal (List Slot × Reading κ) := do
  let classified ← classifyAll choices args
  readFrom stop (2 * classified.length + 2) slots classified {}

end Arguments
end DocHighlighter
