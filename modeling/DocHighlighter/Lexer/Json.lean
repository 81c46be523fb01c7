/-
# JSON

The tokens of JSON are runs of characters of one sort, strings and comments.  A
string is the key of an object if a colon comes next, with blanks and comments
at most in between; so strings, and what follows them, wait in a queue until the
next other sign decides (`release`).
-/

import DocHighlighter.Token.Basic

namespace DocHighlighter
namespace Json

/-- Where in a string the scan stands. -/
inductive StringPlace where
  | plain
  /-- After a backslash. -/
  | escape
  /-- Inside an escape by code, with so many digits to come. -/
  | code (digits : Nat)

/-- What the scan is in the middle of. -/
inductive Mode where
  | between
  | string (place : StringPlace)
  | whitespace
  | constant
  | number (isFloat : Bool)
  | punctuation
  | slash
  | lineComment
  | blockComment (afterStar : Bool)

/-- The state of a scan. -/
structure State where
  mode : Mode := .between
  /-- The characters of the token being read, latest first. -/
  pending : List Char := []
  /-- Strings, blanks and comments that wait for a colon, latest first. -/
  queue : List Token := []
  /-- The tokens read, latest first. -/
  done : List Token := []

def isWhitespace (c : Char) : Bool :=
  c == ' ' || c == '\n' || c == '\r' || c == '\t'

def isInteger (c : Char) : Bool :=
  c == '-' || c.isDigit

def isFloat (c : Char) : Bool :=
  c == '.' || c == 'e' || c == 'E' || c == '+'

/-- The letters of `true`, `false` and `null`. -/
def isConstant (c : Char) : Bool :=
  ['t', 'r', 'u', 'e', 'f', 'a', 'l', 's', 'n'].contains c

def isPunctuation (c : Char) : Bool :=
  c == '\x7b' || c == '\x7d' || c == '[' || c == ']' || c == ','

def isHex (c : Char) : Bool :=
  c.isDigit || ('a' ≤ c && c ≤ 'f') || ('A' ≤ c && c ≤ 'F')

namespace State

/-- The token being read, given a kind. -/
def token (s : State) (kind : Kind) : Token :=
  .ofChars kind s.pending.reverse

/-- Ends the token being read and writes it. -/
def emit (s : State) (kind : Kind) : State :=
  { s with mode := .between, pending := [], done := s.token kind :: s.done }

/-- Ends the token being read; it waits if something waits already. -/
def emitOrWait (s : State) (kind : Kind) : State :=
  if s.queue.isEmpty then s.emit kind
  else { s with mode := .between, pending := [], queue := s.token kind :: s.queue }

/-- Ends the token being read and lets it wait. -/
def wait (s : State) (kind : Kind) : State :=
  { s with mode := .between, pending := [], queue := s.token kind :: s.queue }

/-- Writes what waits, under the kinds that `f` gives. -/
def release (s : State) (f : Kind → Kind) : State :=
  { s with queue := [], done := s.queue.map (fun t => { t with kind := f t.kind }) ++ s.done }

/-- Takes one more character into the token being read. -/
def extend (s : State) (c : Char) (mode : Mode) : State :=
  { s with mode := mode, pending := c :: s.pending }

/-- Begins a token with a character. -/
def start (s : State) (c : Char) : State :=
  let begin (s : State) (mode : Mode) : State := { s with mode := mode, pending := [c] }
  let plain := s.release id
  if c == '"' then begin s (.string .plain)
  else if isWhitespace c then begin s .whitespace
  else if c == 'f' || c == 'n' || c == 't' then begin plain .constant
  else if isInteger c then begin plain (.number false)
  else if c == ':' then
    begin (s.release fun k => if k = .stringDouble then .nameTag else k) .punctuation
  else if isPunctuation c then begin plain .punctuation
  else if c == '/' then begin s .slash
  else { plain with done := ⟨.error, c.toString⟩ :: plain.done }

/-- Takes one character of a string. -/
def feedString (s : State) (place : StringPlace) (c : Char) : State :=
  match place with
  | .code digits =>
    if isHex c && 1 < digits then s.extend c (.string (.code (digits - 1)))
    else s.extend c (.string .plain)
  | .escape => s.extend c (.string (if c == 'u' then .code 4 else .plain))
  | .plain =>
    if c == '\\' then s.extend c (.string .escape)
    else if c == '"' then (s.extend c .between).wait .stringDouble
    else s.extend c (.string .plain)

/-- Takes one character. -/
def feed (s : State) (c : Char) : State :=
  match s.mode with
  | .between => s.start c
  | .string place => s.feedString place c
  | .whitespace =>
    if isWhitespace c then s.extend c .whitespace else (s.emitOrWait .whitespace).start c
  | .constant =>
    if isConstant c then s.extend c .constant else (s.emit .keywordConstant).start c
  | .number float =>
    if isInteger c then s.extend c (.number float)
    else if isFloat c then s.extend c (.number true)
    else (s.emit (if float then .numberFloat else .numberInteger)).start c
  | .punctuation =>
    if isPunctuation c then s.extend c .punctuation else (s.emit .punctuation).start c
  | .lineComment =>
    if c == '\n' then (s.emitOrWait .commentSingle).start c else s.extend c .lineComment
  | .blockComment afterStar =>
    if c == '*' then s.extend c (.blockComment true)
    else if afterStar && c == '/' then (s.extend c .between).emitOrWait .commentMultiline
    else s.extend c (.blockComment false)
  | .slash =>
    if c == '/' then s.extend c .lineComment
    else if c == '*' then s.extend c (.blockComment false)
    else ((s.release id).emit .error).start c

/-- Writes what is left at the end of the text. -/
def finish (s : State) : State :=
  let s := s.release id
  match s.mode with
  | .between => s
  | .string _ => s.emit .error
  | .whitespace => s.emit .whitespace
  | .constant => s.emit .keywordConstant
  | .number float => s.emit (if float then .numberFloat else .numberInteger)
  | .punctuation => s.emit .punctuation
  | .lineComment => s.emit .commentSingle
  | .blockComment _ => s.emit .error
  | .slash => s.emit .error

end State

/-- The tokens of a text. -/
def scan (text : List Char) : List Token :=
  (text.foldl State.feed {}).finish.done.reverse

end Json
end DocHighlighter
