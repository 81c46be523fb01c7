/-
# Scanner tables

A table gives each named state its rules, in the order in which they are tried.
A rule has a pattern, an action that makes tokens of the match, and the moves
that the stack of states then makes.  Patterns may be given in their written
form, which is read when the table is made ready (`Table.ready`): the first
pattern that cannot be read is then the fault of the table.
-/

import DocHighlighter.Pattern.Notation
import DocHighlighter.Token.Basic

namespace DocHighlighter
namespace Scanner

/-- Where the pattern of a rule comes from. -/
inductive Source where
  | written (text : String)
  | built (expr : Pattern.Expr)

/-- What becomes of one group of a match. -/
inductive Part where
  /-- A token, unless the group is empty or has not matched. -/
  | token (kind : Kind)
  /-- The tokens of the group's text scanned on its own, from the given state above the root. -/
  | nested (state : Option String)
  /-- A nested scan that is not available. -/
  | refused
  deriving DecidableEq

/-- The tokens that a match gives. -/
inductive Action where
  /-- One token, even of an empty match. -/
  | token (kind : Kind)
  /-- One token, unless the match is empty. -/
  | nonempty (kind : Kind)
  /-- What each group gives, in order. -/
  | groups (parts : List Part)
  /-- No token. -/
  | silent

/-- A move of the stack of states. -/
inductive Move where
  /-- Takes the top state off, unless it is the only one. -/
  | pop
  /-- Puts the top state on once more. -/
  | again
  /-- Puts a state on. -/
  | enter (state : String)
  deriving DecidableEq

/-- A rule as it is stated. -/
structure Rule where
  pattern : Source
  action : Action
  moves : List Move := []

/-- A rule that makes one token. -/
def on (written : String) (kind : Kind) (moves : List Move := []) : Rule :=
  ⟨.written written, .token kind, moves⟩

/-- A rule that makes a token of each group. -/
def onGroups (written : String) (parts : List Part) (moves : List Move := []) : Rule :=
  ⟨.written written, .groups parts, moves⟩

/-- A rule for the longest word of a list after a fixed beginning, up to a word edge. -/
def onWords (start : String) (words : List String) (kind : Kind) : Rule :=
  let word := Pattern.Expr.oneOfWords (words.map String.toList)
  ⟨.built (.seq (.text start.toList) (.seq word (.anchor .wordEdge))), .token kind, []⟩

/-- A rule that always matches, takes nothing and only moves. -/
def otherwise (moves : List Move) : Rule :=
  ⟨.built .empty, .silent, moves⟩

/-- The states of a scanner with their rules, in the order in which they are made ready. -/
abbrev Table := List (String × List Rule)

/-- A rule with its pattern read. -/
structure ReadyRule where
  pattern : Pattern
  action : Action
  moves : List Move

/-- The states of a scanner with their rules ready. -/
abbrev ReadyTable := List (String × List ReadyRule)

/-- A pattern of a table that cannot be read. -/
structure TableFault where
  /-- The pattern as it is written. -/
  written : String
  /-- The state it stands in. -/
  state : String
  fault : Pattern.Fault

/-- Reads the pattern of a rule of a state. -/
def Rule.ready (flags : Pattern.Flags) (state : String) (r : Rule) :
    Except TableFault ReadyRule :=
  match r.pattern with
  | .built expr => .ok ⟨⟨expr, flags⟩, r.action, r.moves⟩
  | .written text =>
    match Pattern.read flags text with
    | .ok pattern => .ok ⟨pattern, r.action, r.moves⟩
    | .error fault => .error ⟨text, state, fault⟩

/-- Reads the patterns of a table, state by state and rule by rule. -/
def Table.ready (flags : Pattern.Flags) (t : Table) : Except TableFault ReadyTable :=
  t.mapM fun (state, rules) => do
    return (state, ← rules.mapM (Rule.ready flags state))

end Scanner
end DocHighlighter
