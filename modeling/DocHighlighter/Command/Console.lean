/-
# Messages on the console

A message may hold style tags, such as `[red]` and `[/]`.  The console shows no
styles, so the tags vanish; but they have to fit: a closing tag needs an open
one, of its name if it has one.  A tag begins with a letter in lower case or one
of `#`, `/` and `@`, and has no other bracket in it; anything else in brackets
is text.  A backslash before a tag makes it text, and two stand for one.
-/

import DocHighlighter.Text.Lines

namespace DocHighlighter
namespace Console

/-- A closing tag that closes nothing. -/
structure MarkupFault where
  /-- What stands between the brackets. -/
  tag : String
  /-- How many characters of the message are before the tag. -/
  position : Nat
  deriving DecidableEq

/-- The name that a closing tag closes, empty for the innermost one. -/
def closedName (tag : List Char) : List Char :=
  Text.stripEnds Text.isBlank ((tag.takeWhile (· != '=')).drop 1)

/-- The message about a tag that closes nothing. -/
def MarkupFault.message (f : MarkupFault) : String :=
  "closing tag '[" ++ f.tag ++ "]' at position " ++ toString f.position ++
    if (closedName f.tag.toList).isEmpty then " has nothing to close"
    else " doesn't match any open tag"

/-- Short names of styles. -/
def shortNames : List (String × String) :=
  [("d", "dim"), ("b", "bold"), ("i", "italic"), ("u", "underline"), ("uu", "underline2"),
    ("r", "reverse"), ("c", "conceal"), ("s", "strike"), ("o", "overline")]

/-- A name of a style as it counts. -/
def styleName (name : List Char) : String :=
  let name := String.ofList ((Text.stripEnds Text.isBlank name).map Char.toLower)
  (shortNames.lookup name).getD name

/-- A piece of a message, with the number of characters before it. -/
inductive Piece where
  | text (content : List Char)
  | tag (position : Nat) (content : List Char)

/-- Whether a character begins a tag. -/
def startsTag (c : Char) : Bool :=
  c.isLower || c == '#' || c == '/' || c == '@'

/-- What stands in the tag whose bracket is before a text, and what follows the tag. -/
def tagAt? : List Char → Option (List Char × List Char)
  | c :: rest =>
    if startsTag c then
      let isInside (d : Char) : Bool := d != ']' && d != '['
      match rest.dropWhile isInside with
      | ']' :: tail => some (c :: rest.takeWhile isInside, tail)
      | _ => none
    else none
  | [] => none

/-- The pieces of a message.  `n` bounds the steps, `position` counts the characters before. -/
def pieces : Nat → Nat → List Char → List Piece
  | 0, _, _ => []
  | _ + 1, _, [] => []
  | n + 1, position, c :: rest =>
    let input := c :: rest
    let slashes := (input.takeWhile (· == '\\')).length
    match input.drop slashes with
    | '[' :: inside =>
      match tagAt? inside with
      | some (content, tail) =>
        let after := position + slashes + content.length + 2
        let before := Piece.text (List.replicate (slashes / 2) '\\')
        if slashes % 2 == 1 then
          before :: .text ('[' :: content ++ [']']) :: pieces n after tail
        else before :: .tag (position + slashes) content :: pieces n after tail
      | none =>
        let shown := if slashes == 0 then ['['] else List.replicate (slashes - 1) '\\' ++ ['[']
        .text shown :: pieces n (position + slashes + 1) inside
    | tail =>
      if slashes == 0 then .text [c] :: pieces n (position + 1) rest
      else .text (List.replicate slashes '\\') :: pieces n (position + slashes) tail

/-- The text of a message, the open tags given innermost first. -/
def textOf : List String → List Piece → Except MarkupFault (List Char)
  | _, [] => .ok []
  | opened, .text content :: rest => (textOf opened rest).map (content ++ ·)
  | opened, .tag position content :: rest =>
    let fault : MarkupFault := ⟨String.ofList content, position⟩
    match content with
    | '/' :: _ =>
      let name := closedName content
      if name.isEmpty then
        match opened with
        | [] => .error fault
        | _ :: opened => textOf opened rest
      else if opened.contains (styleName name) then textOf (opened.erase (styleName name)) rest
      else .error fault
    | _ => textOf (styleName (content.takeWhile (· != '=')) :: opened) rest

/-- Characters that the console does not show: they ring, or move its cursor. -/
def isControl (c : Char) : Bool :=
  [7, 8, 11, 12, 13].contains c.toNat

/-- A message as the console shows it, with the end of its line. -/
def shown (message : String) : Except MarkupFault (List Char) :=
  let input := message.toList
  match textOf [] (pieces (input.length + 1) 0 input) with
  | .error fault => .error fault
  | .ok text => .ok (Text.expandTabs 8 (text.filter (!isControl ·)) ++ ['\n'])

end Console
end DocHighlighter
