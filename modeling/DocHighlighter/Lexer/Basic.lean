/-
# Lexers

A lexer has a description (the names it goes by) and a body: a scanner table
with flags, or the reader of JSON, which decides what a string is only once it
has seen what follows.  `Lexer.tokens` scans a prepared text.

Before a text is scanned it is prepared (`Preparation`): a byte order mark at
the start is dropped, newlines get one spelling, margins are stripped if asked
for, tabs are filled, and the text is made to end in a newline.
-/

import DocHighlighter.Lexer.Json
import DocHighlighter.Scanner.Run
import DocHighlighter.Text.Lines

namespace DocHighlighter

/-- How a text is prepared for scanning. -/
structure Preparation where
  /-- Strips newlines off both ends. -/
  stripNewlines : Bool := true
  /-- Strips all white space off both ends. -/
  stripBlanks : Bool := false
  /-- Adds a newline to a text that does not end in one. -/
  ensureNewline : Bool := true
  /-- Fills tabs up to multiples of so many columns, unless it is not positive. -/
  tabWidth : Int := 0

/-- Prepares a text for scanning. -/
def Preparation.apply (p : Preparation) (text : List Char) : List Char :=
  let text := match text with
    | '\ufeff' :: rest => rest
    | text => text
  let text := Text.unifyNewlines text
  let text :=
    if p.stripBlanks then Text.stripEnds Text.isBlank text
    else if p.stripNewlines then Text.stripEnds (· == '\n') text
    else text
  let text := if 0 < p.tabWidth then Text.expandTabs p.tabWidth.toNat text else text
  if p.ensureNewline && text.getLast? != some '\n' then text ++ ['\n'] else text

/-- The preparation that keeps blank lines at both ends. -/
def Preparation.keepingLines : Preparation := { stripNewlines := false }

/-- What a lexer is made of. -/
inductive Lexer.Body where
  | table (flags : Pattern.Flags) (table : Scanner.Table)
  | json

/-- Where a lexer comes from. -/
inductive Lexer.Origin where
  /-- It is one of the lexers that need no grammar, by its name. -/
  | readyMade (name : String)
  /-- It was made for a grammar, by the grammar's name. -/
  | grammar (name : String)
  deriving DecidableEq

/-- A lexer and what it is known by. -/
structure Lexer where
  /-- The name of the lexer's type, formed from its display name. -/
  typeName : String
  /-- The type name of the lexer that this one extends. -/
  parentName : String
  /-- The display name. -/
  name : String
  aliases : List String
  filenames : List String
  body : Lexer.Body
  /-- Changes the kind of a token after the scan. -/
  retag : Token → Kind := Token.kind
  origin : Lexer.Origin

/-- Why a lexer cannot give the tokens of a text. -/
inductive LexFault where
  /-- A pattern of the lexer with the given type name cannot be read. -/
  | unreadable (typeName : String) (fault : Scanner.TableFault)
  | scan (fault : Scanner.ScanFault)

/-- The message about a fault. -/
def LexFault.message : LexFault → String
  | unreadable typeName f =>
    "uncompilable regex " ++ Text.quoted f.written ++ " in state " ++ Text.quoted f.state ++
      " of <class 'idlcdoc.grammars.compile." ++ typeName ++ "'>: " ++ f.fault.message f.written
  | scan .endless => "the scan does not end"
  | scan .nestedState =>
    "_keyword_lexer.<locals>.get_tokens_unprocessed() got an unexpected keyword argument 'stack'"

namespace Lexer

/-- The tokens of a prepared text. -/
def tokens (l : Lexer) (text : List Char) : Except LexFault (List Token) := do
  let plain ←
    match l.body with
    | .json => pure (Json.scan text)
    | .table flags table =>
      match table.ready flags with
      | .error fault => .error (.unreadable l.typeName fault)
      | .ok ready =>
        match Scanner.scan ready text with
        | .error fault => .error (.scan fault)
        | .ok tokens => pure tokens
  return plain.map fun t => { t with kind := l.retag t }

/-- The tokens of a text, prepared first. -/
def tokensOf (l : Lexer) (p : Preparation) (text : String) : Except LexFault (List Token) :=
  l.tokens (p.apply text.toList)

end Lexer
end DocHighlighter
