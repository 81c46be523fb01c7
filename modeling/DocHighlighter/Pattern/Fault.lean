/-
# Faults of written patterns

Why a written pattern cannot be read, and where.  A position counts characters
from the start of the pattern; the message adds the line and the column when
the pattern has more than one line (`Fault.message`).
-/

import DocHighlighter.Text.Decimal
import DocHighlighter.Text.Escape

namespace DocHighlighter
namespace Pattern

/-- What is wrong at a position of a written pattern. -/
inductive Cause where
  | unterminatedGroup
  | unbalancedParenthesis
  | unterminatedSet
  | unterminatedComment
  | unterminatedName (closer : Char)
  | missingName (what : String)
  | missingBrace
  | unexpectedEnd
  | nothingToRepeat
  | multipleRepeat
  | leastOverMost
  | badEscape (written : String)
  | incompleteEscape (written : String)
  | danglingEscape
  | octalTooLarge (written : String)
  | unknownCharacterName (name : String)
  | badRange (lo hi : String)
  | unknownExtension (written : String)
  | badGroupName (name : String)
  | unknownGroupName (name : String)
  | redefinedGroup (name : String) (group earlier : Nat)
  | badGroupNumber
  | invalidReference (group : Nat)
  | openReference
  | referenceWithinBehind
  | tooManyBranches
  | flagsNotFirst
  | unknownFlag
  | missingFlag
  | missingColon
  | missingFlagEnd
  | localeFlag
  | incompatibleFlags
  | globalFlagOn
  | typeFlagOff
  | flagOnAndOff
  deriving DecidableEq

/-- The wording of a cause. -/
def Cause.message : Cause → String
  | unterminatedGroup => "missing ), unterminated subpattern"
  | unbalancedParenthesis => "unbalanced parenthesis"
  | unterminatedSet => "unterminated character set"
  | unterminatedComment => "missing ), unterminated comment"
  | unterminatedName closer => "missing " ++ closer.toString ++ ", unterminated name"
  | missingName what => "missing " ++ what
  | missingBrace => "missing \x7b"
  | unexpectedEnd => "unexpected end of pattern"
  | nothingToRepeat => "nothing to repeat"
  | multipleRepeat => "multiple repeat"
  | leastOverMost => "min repeat greater than max repeat"
  | badEscape written => "bad escape " ++ written
  | incompleteEscape written => "incomplete escape " ++ written
  | danglingEscape => "bad escape (end of pattern)"
  | octalTooLarge written => "octal escape value " ++ written ++ " outside of range 0-0o377"
  | unknownCharacterName name => "undefined character name " ++ Text.quoted name
  | badRange lo hi => "bad character range " ++ lo ++ "-" ++ hi
  | unknownExtension written => "unknown extension " ++ written
  | badGroupName name => "bad character in group name " ++ Text.quoted name
  | unknownGroupName name => "unknown group name " ++ Text.quoted name
  | redefinedGroup name group earlier =>
    "redefinition of group name " ++ Text.quoted name ++ " as group " ++ toString group ++
      "; was group " ++ toString earlier
  | badGroupNumber => "bad group number"
  | invalidReference group => "invalid group reference " ++ toString group
  | openReference => "cannot refer to an open group"
  | referenceWithinBehind =>
    "cannot refer to group defined in the same lookbehind subpattern"
  | tooManyBranches => "conditional backref with more than two branches"
  | flagsNotFirst => "global flags not at the start of the expression"
  | unknownFlag => "unknown flag"
  | missingFlag => "missing flag"
  | missingColon => "missing :"
  | missingFlagEnd => "missing -, : or )"
  | localeFlag => "bad inline flags: cannot use 'L' flag with a str pattern"
  | incompatibleFlags => "bad inline flags: flags 'a', 'u' and 'L' are incompatible"
  | globalFlagOn => "bad inline flags: cannot turn on global flag"
  | typeFlagOff => "bad inline flags: cannot turn off flags 'a', 'u' and 'L'"
  | flagOnAndOff => "bad inline flags: flag turned on and off"

/-- Why a written pattern is refused. -/
inductive Fault where
  /-- Something is wrong at a position. -/
  | at (cause : Cause) (position : Nat)
  /-- A look behind has a body whose matches differ in width. -/
  | unevenBehind
  /-- A look behind goes further back than can be counted. -/
  | farBehind
  /-- A number of turns is too large to be counted. -/
  | tooManyTurns
  /-- A number of turns has more digits than are read. -/
  | tooManyDigits (digits : Nat)
  /-- The whole pattern is to know ASCII only, and is not to. -/
  | mixedAlphabets
  deriving DecidableEq

/-- The line and the column of a position, both from one. -/
def lineAndColumn (pattern : List Char) (position : Nat) : Nat × Nat :=
  let before := pattern.take position
  let line := before.count '\n' + 1
  let column := (before.reverse.takeWhile (· != '\n')).length + 1
  (line, column)

/-- The message about a fault of a written pattern. -/
def Fault.message (pattern : String) : Fault → String
  | .at cause position =>
    let place := cause.message ++ " at position " ++ toString position
    if pattern.toList.contains '\n' then
      let (line, column) := lineAndColumn pattern.toList position
      place ++ " (line " ++ toString line ++ ", column " ++ toString column ++ ")"
    else place
  | .unevenBehind => "look-behind requires fixed-width pattern"
  | .farBehind => "looks too much behind"
  | .tooManyTurns => "the repetition number is too large"
  | .tooManyDigits digits =>
    "Exceeds the limit (" ++ toString Text.digitLimit ++
      " digits) for integer string conversion: value has " ++ toString digits ++
      " digits; use sys.set_int_max_str_digits() to increase the limit"
  | .mixedAlphabets => "ASCII and UNICODE flags are incompatible"

end Pattern
end DocHighlighter
