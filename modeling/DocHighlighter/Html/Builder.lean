/-
# Building the tree of a page

The tree is built token by token.  How a token counts depends on how far the
page is (`Mode`); a mode passes on what it has no rule for, after it has done
what that implies: a page without a head or a body gets one, a row outside a
table body gets a table body, and so on.

| mode | passes on to |
|---|---|
| initial, before the root, before the head, in the head, after the head | the next of these, at last the body |
| after the body, after the root | the body |
| in a caption or a cell | the body |
| in a column group or the body of a table | the table |
| in a row | the body of the table, or the table |
| in a table | the body, what comes goes before the table |

So no mode passes a token on in a circle, and a step always ends.
-/

import DocHighlighter.Html.Foreign
import DocHighlighter.Html.Formatting
import DocHighlighter.Html.Token

namespace DocHighlighter
namespace Html

/-- How far a page is. -/
inductive Mode where
  | initial
  | beforeRoot
  | beforeHead
  | inHead
  | afterHead
  | inBody
  | inText
  | inTable
  | inCaption
  | inColumns
  | inTableBody
  | inRow
  | inCell
  | afterBody
  | afterRoot
  deriving DecidableEq

/-- What stands beside the root of a page. -/
inductive Outer where
  | doctype (name : List Char)
  | comment (content : List Char)

/-- A page that is being built. -/
structure Builder extends Open where
  mode : Mode := .initial
  /-- The mode to go back to after text. -/
  resume : Mode := .inBody
  /-- How an element with nothing but text is read. -/
  textReading : Option Reading := none
  /-- Whether a newline at the start of the next token does not count. -/
  dropsNewline : Bool := false
  /-- Whether what comes does not belong into the table it stands in. -/
  outsideTable : Bool := false
  isOld : Bool := false
  /-- What stands before the root, last one first. -/
  before : List Outer := []
  /-- Comments behind the body, last one first. -/
  behindBody : List Node := []
  /-- What stands behind the root, last one first. -/
  after : List Outer := []

namespace Builder

/-- Changes the open elements. -/
def onOpen (b : Builder) (f : Open → Open) : Builder :=
  { b with toOpen := f b.toOpen }

/-- Changes the stack of open elements. -/
def onStack (b : Builder) (f : Stack → Stack) : Builder :=
  { b with stack := f b.stack }

/-- Where an element opened now goes when it is closed. -/
def home (outsideTable : Bool) : Stack → Home
  | [] => .within
  | f :: _ => if outsideTable && f.isTablePart then .beforeTable else .within

/-- Opens an element. -/
def insert (b : Builder) (tag : Tag) : Builder :=
  b.onOpen (·.push tag (home b.outsideTable b.stack))

/-- Puts in a node that needs no more. -/
def insertNode (b : Builder) (n : Node) : Builder :=
  b.onStack fun s => s.attach n (home b.outsideTable s)

/-- Puts in text. -/
def insertText (b : Builder) (content : List Char) : Builder :=
  if content.isEmpty then b else b.insertNode (.text content)

/-- Opens again the formatting that was cut off. -/
def restart (b : Builder) : Builder :=
  b.onOpen (·.restart (home b.outsideTable))

/-- Whether an element of a kind is open within bounds. -/
def isOpenWithin (b : Builder) (stops target : Frame → Bool) : Bool :=
  Stack.isOpenWithin stops target b.stack

/-- Closes elements up to one of a kind, if it is open within bounds. -/
def closeWithin (b : Builder) (stops target : Frame → Bool) : Builder :=
  if b.isOpenWithin stops target then b.onStack (·.popThrough target) else b

/-- Closes an open paragraph. -/
def closeParagraph (b : Builder) : Builder :=
  b.closeWithin Frame.boundsParagraph (·.isPage "p")

/-- Opens an element that has nothing but text. -/
def insertTextElement (b : Builder) (tag : Tag) (reading : Reading) : Builder :=
  { b.insert tag with mode := .inText, resume := b.mode, textReading := some reading }

/-- Puts the elements that belong into a head where the page is; `none` for any other. -/
def headElement? (b : Builder) (tag : Tag) : Option Builder :=
  if ["base", "basefont", "bgsound", "link", "meta"].contains tag.name then
    some (b.insertNode (.element tag []))
  else if tag.name == "title" then
    some (b.insertTextElement tag (.references tag.name.toList))
  else if ["style", "script", "noframes"].contains tag.name then
    some (b.insertTextElement tag (.endTag tag.name.toList))
  else none

/-- Adds attributes to the outermost open element but some. -/
def addAttributes (level : Nat) (attributes : List Attribute) (b : Builder) : Builder :=
  b.onStack fun s =>
    let i := s.length - 1 - level
    s.modify i fun f =>
      let known := f.tag.attributes
      let new := attributes.filter fun a => !known.any (·.name == a.name)
      { f with tag := { f.tag with attributes := known ++ new } }

/-! ## In the body -/

/-- The kinds of start tags in a body. -/
inductive OpeningRule where
  | root
  | body
  | ignored
  | block
  | heading
  | preformatted
  | form
  | item (names : List String)
  | plain
  | button
  | anchor
  | format
  | noBreak
  | bounded
  | table
  | empty
  | emptyInfo
  | line
  | image
  | textArea
  | verbatim
  | frame
  | choice
  | foreign (space : Space)
  | ordinary
  deriving DecidableEq

/-- Names of blocks that end a paragraph. -/
def blockNames : List String :=
  ["address", "article", "aside", "blockquote", "center", "details", "dialog", "dir", "div", "dl",
    "fieldset", "figcaption", "figure", "footer", "header", "hgroup", "main", "menu", "nav", "ol",
    "p", "search", "section", "summary", "ul"]

/-- Names of elements that format text and go on when they are cut off. -/
def formatNames : List String :=
  ["b", "big", "code", "em", "font", "i", "s", "small", "strike", "strong", "tt", "u"]

/-- Names of elements that only count elsewhere. -/
def misplacedNames : List String :=
  ["caption", "col", "colgroup", "frame", "frameset", "head", "tbody", "td", "tfoot", "th",
    "thead", "tr"]

/-- The kind of a start tag in a body. -/
def openingRule (name : String) : OpeningRule :=
  if name == "html" then .root
  else if name == "body" then .body
  else if misplacedNames.contains name then .ignored
  else if blockNames.contains name then .block
  else if ["h1", "h2", "h3", "h4", "h5", "h6"].contains name then .heading
  else if ["pre", "listing"].contains name then .preformatted
  else if name == "form" then .form
  else if name == "li" then .item ["li"]
  else if name == "dd" || name == "dt" then .item ["dd", "dt"]
  else if name == "plaintext" then .plain
  else if name == "button" then .button
  else if name == "a" then .anchor
  else if formatNames.contains name then .format
  else if name == "nobr" then .noBreak
  else if ["applet", "marquee", "object"].contains name then .bounded
  else if name == "table" then .table
  else if ["area", "br", "embed", "img", "input", "keygen", "wbr"].contains name then .empty
  else if ["param", "source", "track"].contains name then .emptyInfo
  else if name == "hr" then .line
  else if name == "image" then .image
  else if name == "textarea" then .textArea
  else if name == "xmp" then .verbatim
  else if ["iframe", "noembed"].contains name then .frame
  else if ["optgroup", "option"].contains name then .choice
  else if name == "svg" then .foreign .drawing
  else if name == "math" then .foreign .formula
  else .ordinary

/-- Closes the item of a list that a new one of its kind ends. -/
def closeItem (names : List String) (s : Stack) : Stack :=
  match s.find? fun f => f.isOneOf names || (f.isSpecial && !f.isOneOf ["address", "div", "p"]) with
  | none => s
  | some f => if f.isOneOf names then s.popThrough (·.id == f.id) else s

/-- Opens a formatting element. -/
def insertFormat (b : Builder) (tag : Tag) : Builder :=
  b.onOpen (·.pushFormat tag (home b.outsideTable b.stack))

/-- Ends formatting out of order. -/
def adopt (b : Builder) (name : String) : Builder :=
  b.onOpen (Open.adopt (home b.outsideTable) name)

/-- Takes the innermost open element of a name out of the formatting. -/
def forgetOpen (name : String) (o : Open) : Open :=
  match (o.formatting.takeWhile (!·.isMark)).find? (·.hasName name) with
  | some (.element id _) => o.forget id
  | _ => o

/-- A start tag in the body. -/
def openInBody (b : Builder) (name : String) (attributes : List Attribute) (selfClosing : Bool) :
    Builder :=
  let tag : Tag := ⟨name, attributes, .page⟩
  match b.headElement? tag with
  | some b => b
  | none =>
    match openingRule name with
    | .root => b.addAttributes 0 attributes
    | .body => b.addAttributes 1 attributes
    | .ignored => b
    | .block => b.closeParagraph.insert tag
    | .heading =>
      let b := b.closeParagraph
      let b := match b.stack with
        | f :: _ => if f.isHeading then b.onStack Stack.pop else b
        | [] => b
      b.insert tag
    | .preformatted => { b.closeParagraph.insert tag with dropsNewline := true }
    | .form => if b.stack.any (·.isPage "form") then b else b.closeParagraph.insert tag
    | .item names => ((b.onStack (closeItem names)).closeParagraph).insert tag
    | .plain => { b.closeParagraph.insert tag with textReading := some .nothing }
    | .button => ((b.closeWithin Frame.bounds (·.isPage "button")).restart).insert tag
    | .anchor =>
      let inner := (b.formatting.takeWhile (!·.isMark)).any (·.hasName "a")
      let b := if inner then (b.adopt "a").onOpen (forgetOpen "a") else b
      b.restart.insertFormat tag
    | .format => b.restart.insertFormat tag
    | .noBreak =>
      let b := b.restart
      let b := if b.isOpenWithin Frame.bounds (·.isPage "nobr") then (b.adopt "nobr").restart else b
      b.insertFormat tag
    | .bounded => (b.restart.insert tag).onOpen Open.mark
    | .table =>
      let b := if b.isOld then b else b.closeParagraph
      { b.insert tag with mode := .inTable }
    | .empty => b.restart.insertNode (.element tag [])
    | .emptyInfo => b.insertNode (.element tag [])
    | .line => b.closeParagraph.insertNode (.element tag [])
    | .image => b.restart.insertNode (.element { tag with name := "img" } [])
    | .textArea =>
      { b.insertTextElement tag (.references name.toList) with dropsNewline := true }
    | .verbatim => b.closeParagraph.restart.insertTextElement tag (.endTag name.toList)
    | .frame => b.insertTextElement tag (.endTag name.toList)
    | .choice =>
      let b := match b.stack with
        | f :: _ => if f.isPage "option" then b.onStack Stack.pop else b
        | [] => b
      b.restart.insert tag
    | .foreign space =>
      let tag := Foreign.tag space name attributes
      if selfClosing then b.restart.insertNode (.element tag []) else b.restart.insert tag
    | .ordinary => b.restart.insert tag

/-- Names of elements that their end tags close, with all that is open in them. -/
def closedNames : List String :=
  ["address", "article", "aside", "blockquote", "button", "center", "details", "dialog", "dir",
    "div", "dl", "fieldset", "figcaption", "figure", "footer", "form", "header", "hgroup",
    "listing", "main", "menu", "nav", "ol", "pre", "search", "section", "summary", "ul"]

/-- An end tag in the body. -/
def closeInBody (b : Builder) (name : String) : Builder :=
  if name == "body" || name == "html" then
    if b.isOpenWithin Frame.bounds (·.isPage "body") then
      { b with mode := if name == "body" then .afterBody else .afterRoot }
    else b
  else if closedNames.contains name then b.closeWithin Frame.bounds (·.isPage name)
  else if name == "p" then
    let b := if b.isOpenWithin Frame.boundsParagraph (·.isPage "p") then b else b.insert ⟨"p", [], .page⟩
    b.closeParagraph
  else if name == "li" then b.closeWithin Frame.boundsItem (·.isPage "li")
  else if name == "dd" || name == "dt" then b.closeWithin Frame.bounds (·.isPage name)
  else if ["h1", "h2", "h3", "h4", "h5", "h6"].contains name then
    b.closeWithin Frame.bounds Frame.isHeading
  else if name == "a" || name == "nobr" || formatNames.contains name then b.adopt name
  else if ["applet", "marquee", "object"].contains name then
    if b.isOpenWithin Frame.bounds (·.isPage name) then
      (b.onStack (·.popThrough (·.isPage name))).onOpen Open.unmark
    else b
  else if name == "br" then b.restart.insertNode (.element ⟨"br", [], .page⟩ [])
  else b.onOpen (·.close name)

/-- A token in the body. -/
def inBody (b : Builder) : Token → Builder
  | .doctype _ => b
  | .comment content => b.insertNode (.comment content)
  | .text content =>
    let content := content.filter (· != '\x00')
    if content.isEmpty then b else b.restart.insertText content
  | .opening name attributes selfClosing => b.openInBody name attributes selfClosing
  | .closing name => b.closeInBody name

/-! ## In tables -/

/-- The mode that the open elements call for. -/
def modeFor : Stack → Mode
  | [] => .inBody
  | f :: rest =>
    if f.isOneOf ["td", "th"] then .inCell
    else if f.isPage "tr" then .inRow
    else if f.isOneOf ["tbody", "thead", "tfoot"] then .inTableBody
    else if f.isPage "caption" then .inCaption
    else if f.isPage "colgroup" then .inColumns
    else if f.isPage "table" then .inTable
    else modeFor rest

/-- Closes elements up to one of some names, that one left open. -/
def clearTo (b : Builder) (names : List String) : Builder :=
  b.onStack (·.popWhile fun f => !f.isOneOf ("html" :: names))

/-- Closes the innermost table. -/
def closeTable (b : Builder) : Builder :=
  if b.isOpenWithin Frame.boundsTable (·.isPage "table") then
    let b := b.onStack (·.popThrough (·.isPage "table"))
    { b with mode := modeFor b.stack }
  else b

/-- Names of the parts of a table. -/
def partNames : List String :=
  ["caption", "col", "colgroup", "tbody", "td", "tfoot", "th", "thead", "tr"]

/-- A token in a table that does not belong there. -/
def besideTable (b : Builder) (t : Token) : Builder :=
  { inBody { b with outsideTable := true } t with outsideTable := b.outsideTable }

/-- A token between the columns of a table. -/
def inColumnsOf (b : Builder) (name : String) (attributes : List Attribute) : Builder :=
  { b with mode := .inColumns }.insertNode (.element ⟨name, attributes, .page⟩ [])

/-- A cell in a row. -/
def openCell (b : Builder) (tag : Tag) : Builder :=
  { ((b.clearTo ["tr"]).insert tag).onOpen Open.mark with mode := .inCell }

/-- A row or a cell in the body of a table. -/
def openRow (b : Builder) (tag : Tag) : Builder :=
  let b := b.clearTo ["tbody", "tfoot", "thead"]
  if tag.name == "tr" then { b.insert tag with mode := .inRow }
  else { b.insert ⟨"tr", [], .page⟩ with mode := .inRow }.openCell tag

/-- A part of a table in a table. -/
def openPart (b : Builder) (tag : Tag) : Builder :=
  let b := b.clearTo ["table"]
  if tag.name == "caption" then { (b.onOpen Open.mark).insert tag with mode := .inCaption }
  else if tag.name == "colgroup" then { b.insert tag with mode := .inColumns }
  else if tag.name == "col" then
    { b.insert ⟨"colgroup", [], .page⟩ with mode := .inColumns }.insertNode (.element tag [])
  else if ["tbody", "tfoot", "thead"].contains tag.name then
    { b.insert tag with mode := .inTableBody }
  else { b.insert ⟨"tbody", [], .page⟩ with mode := .inTableBody }.openRow tag

/-- Whether an element is an input that does not show. -/
def isHidden (attributes : List Attribute) : Bool :=
  attributes.any fun a => a.name == "type" &&
    a.value.map Char.toLower == ['h', 'i', 'd', 'd', 'e', 'n']

/-- A token in a table. -/
def inTable (b : Builder) (t : Token) : Builder :=
  match t with
  | .doctype _ => b
  | .comment content => b.insertNode (.comment content)
  | .text content =>
    let inPart := match b.stack with
      | f :: _ => f.isTablePart
      | [] => false
    let content := content.filter (· != '\x00')
    if inPart && content.all Text.isMarkupBlank then b.insertText content
    else b.besideTable (.text content)
  | .opening name attributes selfClosing =>
    let tag : Tag := ⟨name, attributes, .page⟩
    if partNames.contains name then b.openPart tag
    else if name == "table" then
      if b.isOpenWithin Frame.boundsTable (·.isPage "table") then
        b.closeTable.openInBody name attributes selfClosing
      else b
    else if name == "style" || name == "script" then (b.headElement? tag).getD b
    else if (name == "input" && isHidden attributes) || name == "form" then
      b.insertNode (.element tag [])
    else b.besideTable t
  | .closing name =>
    if name == "table" then b.closeTable
    else if partNames.contains name || name == "body" || name == "html" then b
    else b.besideTable t

/-- Closes the innermost part of a table of a kind, and goes back to a mode. -/
def closePart (b : Builder) (names : List String) (mode : Mode) : Builder :=
  { (b.clearTo names).onStack Stack.pop with mode := mode }

/-- Whether a part of a table is open in the innermost table. -/
def isPartOpen (b : Builder) (names : List String) : Bool :=
  b.isOpenWithin Frame.boundsTable (·.isOneOf names)

/-- A token in the body of a table. -/
def inTableBody (b : Builder) (t : Token) : Builder :=
  let groups := ["tbody", "tfoot", "thead"]
  match t with
  | .opening name attributes _ =>
    if ["tr", "td", "th"].contains name then b.openRow ⟨name, attributes, .page⟩
    else if ["caption", "col", "colgroup", "tbody", "tfoot", "thead"].contains name then
      if b.isPartOpen groups then (b.closePart groups .inTable).inTable t else b
    else b.inTable t
  | .closing name =>
    if groups.contains name then
      if b.isPartOpen [name] then b.closePart groups .inTable else b
    else if name == "table" then
      if b.isPartOpen groups then (b.closePart groups .inTable).inTable t else b
    else if ["body", "caption", "col", "colgroup", "html", "td", "th", "tr"].contains name then b
    else b.inTable t
  | _ => b.inTable t

/-- A token in a row. -/
def inRow (b : Builder) (t : Token) : Builder :=
  match t with
  | .opening name attributes _ =>
    if name == "td" || name == "th" then b.openCell ⟨name, attributes, .page⟩
    else if ["caption", "col", "colgroup", "tbody", "tfoot", "thead", "tr"].contains name then
      if b.isPartOpen ["tr"] then (b.closePart ["tr"] .inTableBody).inTableBody t else b
    else b.inTable t
  | .closing name =>
    if name == "tr" then if b.isPartOpen ["tr"] then b.closePart ["tr"] .inTableBody else b
    else if ["table", "tbody", "tfoot", "thead"].contains name then
      if b.isPartOpen [name] && b.isPartOpen ["tr"] then
        (b.closePart ["tr"] .inTableBody).inTableBody t
      else b
    else if ["body", "caption", "col", "colgroup", "html", "td", "th"].contains name then b
    else b.inTable t
  | _ => b.inTable t

/-- Closes the innermost cell. -/
def closeCell (b : Builder) : Builder :=
  { (b.onStack (·.popThrough (·.isOneOf ["td", "th"]))).onOpen Open.unmark with mode := .inRow }

/-- A token in a cell. -/
def inCell (b : Builder) (t : Token) : Builder :=
  match t with
  | .opening name _ _ =>
    if partNames.contains name then
      if b.isPartOpen ["td", "th"] then b.closeCell.inRow t else b
    else b.inBody t
  | .closing name =>
    if name == "td" || name == "th" then
      if b.isPartOpen [name] then
        { (b.onStack (·.popThrough (·.isPage name))).onOpen Open.unmark with mode := .inRow }
      else b
    else if ["body", "caption", "col", "colgroup", "html"].contains name then b
    else if ["table", "tbody", "tfoot", "thead", "tr"].contains name then
      if b.isPartOpen [name] then b.closeCell.inRow t else b
    else b.inBody t
  | _ => b.inBody t

/-- A token in a caption. -/
def inCaption (b : Builder) (t : Token) : Builder :=
  let closed : Builder :=
    { (b.onStack (·.popThrough (·.isPage "caption"))).onOpen Open.unmark with mode := .inTable }
  match t with
  | .opening name _ _ =>
    if partNames.contains name then
      if b.isPartOpen ["caption"] then closed.inTable t else b
    else b.inBody t
  | .closing name =>
    if name == "caption" then if b.isPartOpen ["caption"] then closed else b
    else if name == "table" then if b.isPartOpen ["caption"] then closed.inTable t else b
    else if partNames.contains name || name == "body" || name == "html" then b
    else b.inBody t
  | _ => b.inBody t

/-- Ends the columns of a table, if nothing else is open in them. -/
def closeColumns (b : Builder) : Option Builder :=
  match b.stack with
  | f :: _ =>
    if f.isPage "colgroup" then some { b.onStack Stack.pop with mode := .inTable } else none
  | [] => none

/-- A token among the columns of a table. -/
def inColumns (b : Builder) (t : Token) : Builder :=
  match t with
  | .doctype _ => b
  | .comment content => b.insertNode (.comment content)
  | .text content =>
    let blanks := content.takeWhile Text.isMarkupBlank
    let rest := content.dropWhile Text.isMarkupBlank
    let b := b.insertText blanks
    if rest.isEmpty then b
    else match b.closeColumns with
      | some b => b.inTable (.text rest)
      | none => b
  | .opening name attributes _ =>
    if name == "col" then b.insertNode (.element ⟨name, attributes, .page⟩ [])
    else match b.closeColumns with
      | some b => b.inTable t
      | none => b
  | .closing name =>
    if name == "colgroup" then b.closeColumns.getD b
    else if name == "col" then b
    else match b.closeColumns with
      | some b => b.inTable t
      | none => b

/-! ## Around the body -/

/-- Opens the root. -/
def openRoot (b : Builder) (attributes : List Attribute) : Builder :=
  { b.insert ⟨"html", attributes, .page⟩ with mode := .beforeHead }

/-- Opens the head. -/
def openHead (b : Builder) (attributes : List Attribute) : Builder :=
  { b.insert ⟨"head", attributes, .page⟩ with mode := .inHead }

/-- Closes the head. -/
def closeHead (b : Builder) : Builder :=
  { b.onStack Stack.pop with mode := .afterHead }

/-- Opens the body. -/
def openBody (b : Builder) (attributes : List Attribute) : Builder :=
  { b.insert ⟨"body", attributes, .page⟩ with mode := .inBody }

/-- Sends the text behind its leading blanks on, and does with the blanks as `onBlanks` says. -/
def splitBlanks (b : Builder) (content : List Char) (onBlanks : Builder → List Char → Builder)
    (next : Builder → Token → Builder) : Builder :=
  let blanks := content.takeWhile Text.isMarkupBlank
  let rest := content.dropWhile Text.isMarkupBlank
  let b := onBlanks b blanks
  if rest.isEmpty then b else next b (.text rest)

/-- A token after the head: what belongs into the head still goes there. -/
def afterHead (b : Builder) (t : Token) : Builder :=
  match t with
  | .doctype _ => b
  | .comment content => b.insertNode (.comment content)
  | .text content =>
    b.splitBlanks content insertText fun b t => (b.openBody []).inBody t
  | .opening name attributes selfClosing =>
    if name == "html" then b.addAttributes 0 attributes
    else if name == "body" then b.openBody attributes
    else if name == "head" then b
    else
      let tag : Tag := ⟨name, attributes, .page⟩
      match b.headElement? tag with
      | none => (b.openBody []).inBody (.opening name attributes selfClosing)
      | some opened =>
        if opened.mode = .inText then
          opened.onStack fun s => match s with
            | f :: rest => { f with home := .head } :: rest
            | [] => []
        else b.onStack fun s => s.attach (.element tag []) .head
  | .closing name =>
    if ["body", "html", "br"].contains name then (b.openBody []).inBody t else b

/-- A token in the head. -/
def inHead (b : Builder) (t : Token) : Builder :=
  match t with
  | .doctype _ => b
  | .comment content => b.insertNode (.comment content)
  | .text content => b.splitBlanks content insertText fun b t => b.closeHead.afterHead t
  | .opening name attributes _ =>
    if name == "html" then b.addAttributes 0 attributes
    else if name == "head" then b
    else (b.headElement? ⟨name, attributes, .page⟩).getD (b.closeHead.afterHead t)
  | .closing name =>
    if name == "head" then b.closeHead
    else if ["body", "html", "br"].contains name then b.closeHead.afterHead t
    else b

/-- A token before the head. -/
def beforeHead (b : Builder) (t : Token) : Builder :=
  match t with
  | .doctype _ => b
  | .comment content => b.insertNode (.comment content)
  | .text content =>
    b.splitBlanks content (fun b _ => b) fun b t => (b.openHead []).inHead t
  | .opening name attributes _ =>
    if name == "html" then b.addAttributes 0 attributes
    else if name == "head" then b.openHead attributes
    else (b.openHead []).inHead t
  | .closing name =>
    if ["head", "body", "html", "br"].contains name then (b.openHead []).inHead t else b

/-- A token before the root. -/
def beforeRoot (b : Builder) (t : Token) : Builder :=
  match t with
  | .doctype _ => b
  | .comment content => { b with before := .comment content :: b.before }
  | .text content =>
    b.splitBlanks content (fun b _ => b) fun b t => (b.openRoot []).beforeHead t
  | .opening name attributes _ =>
    if name == "html" then b.openRoot attributes else (b.openRoot []).beforeHead t
  | .closing name =>
    if ["head", "body", "html", "br"].contains name then (b.openRoot []).beforeHead t else b

/-- A token at the start of a page. -/
def initial (b : Builder) (t : Token) : Builder :=
  let undeclared : Builder := { b with isOld := true, mode := .beforeRoot }
  match t with
  | .doctype d =>
    { b with before := .doctype d.name :: b.before, isOld := d.isOld, mode := .beforeRoot }
  | .comment content => { b with before := .comment content :: b.before }
  | .text content =>
    b.splitBlanks content (fun b _ => b) fun b t =>
      { b with isOld := true, mode := .beforeRoot }.beforeRoot t
  | _ => undeclared.beforeRoot t

/-- A token behind the body. -/
def afterBody (b : Builder) (t : Token) : Builder :=
  match t with
  | .doctype _ => b
  | .comment content => { b with behindBody := .comment content :: b.behindBody }
  | .text content =>
    if content.all Text.isMarkupBlank then b.inBody t else { b with mode := .inBody }.inBody t
  | .opening name _ _ =>
    if name == "html" then b.inBody t else { b with mode := .inBody }.inBody t
  | .closing name =>
    if name == "html" then { b with mode := .afterRoot } else { b with mode := .inBody }.inBody t

/-- A token behind the root. -/
def afterRoot (b : Builder) (t : Token) : Builder :=
  match t with
  | .doctype _ => b
  | .comment content => { b with after := .comment content :: b.after }
  | .text content =>
    if content.all Text.isMarkupBlank then b.inBody t else { b with mode := .inBody }.inBody t
  | .opening name _ _ =>
    if name == "html" then b.inBody t else { b with mode := .inBody }.inBody t
  | .closing _ => { b with mode := .inBody }.inBody t

/-- A token in an element that has nothing but text. -/
def inText (b : Builder) : Token → Builder
  | .text content => b.insertText content
  | .closing _ => { b.onStack Stack.pop with mode := b.resume, textReading := none }
  | _ => b

/-- A token where the page is. -/
def byMode (b : Builder) (t : Token) : Builder :=
  match b.mode with
  | .initial => b.initial t
  | .beforeRoot => b.beforeRoot t
  | .beforeHead => b.beforeHead t
  | .inHead => b.inHead t
  | .afterHead => b.afterHead t
  | .inBody => b.inBody t
  | .inText => b.inText t
  | .inTable => b.inTable t
  | .inCaption => b.inCaption t
  | .inColumns => b.inColumns t
  | .inTableBody => b.inTableBody t
  | .inRow => b.inRow t
  | .inCell => b.inCell t
  | .afterBody => b.afterBody t
  | .afterRoot => b.afterRoot t

/-! ## In drawings and formulas -/

/-- Whether an open element belongs to a drawing or a formula. -/
def isForeign (f : Frame) : Bool :=
  f.tag.space != .page

/-- Whether a token counts as one in a drawing or a formula. -/
def isInForeign (b : Builder) (t : Token) : Bool :=
  match b.stack with
  | [] => false
  | f :: _ => isForeign f &&
    match t with
    | .opening _ _ _ => !f.holdsPage
    | .text _ => !f.holdsPage
    | _ => true

/-- A token in a drawing or a formula. -/
def inForeign (b : Builder) (t : Token) : Builder :=
  match t with
  | .doctype _ => b
  | .comment content => b.insertNode (.comment content)
  | .text content => b.insertText (Token.withoutNul content)
  | .opening name attributes selfClosing =>
    if Foreign.endsForeign name attributes then
      (b.onStack (·.popWhile fun f => isForeign f && !f.holdsPage)).byMode t
    else
      let space := match b.stack with
        | f :: _ => f.tag.space
        | [] => .page
      let tag := Foreign.tag space name attributes
      if selfClosing then b.insertNode (.element tag []) else b.insert tag
  | .closing name =>
    match b.stack.find? fun f =>
        !isForeign f || f.tag.name.toList.map Char.toLower == name.toList with
    | none => b
    | some f => if isForeign f then b.onStack (·.popThrough (·.id == f.id)) else b.byMode t

/-! ## From the first token to the last -/

/-- A token without the newline that does not count; `none` if nothing is left of it. -/
def withoutNewline : Token → Option Token
  | .text ['\n'] => none
  | .text ('\n' :: rest) => some (.text rest)
  | t => some t

/-- Takes in a token. -/
def step (b : Builder) (t : Token) : Builder :=
  let t := if b.dropsNewline then withoutNewline t else some t
  let b := { b with dropsNewline := false }
  match t with
  | none => b
  | some t => if b.isInForeign t then b.inForeign t else b.byMode t

/-- How the next token is read. -/
def reading (b : Builder) : Reading :=
  match b.textReading with
  | some r => r
  | none => .markup <| match b.stack with
    | f :: _ => isForeign f
    | [] => false

/-- Takes in the rest of a page. -/
def run (b : Builder) : List Char → Builder
  | [] => b
  | c :: rest =>
    match _h : Token.next b.reading c rest with
    | (none, tail) => run b tail
    | (some t, tail) => run (b.step t) tail
termination_by page => page.length
decreasing_by
  all_goals
    have := Token.next_length_lt b.reading c rest
    rw [_h] at this
    exact this

/-- Ends the text that the end of a page cuts off. -/
def endText (b : Builder) : Builder :=
  if b.mode = .inText then { b.onStack Stack.pop with mode := b.resume, textReading := none }
  else b

/-- Opens what every page has. -/
def complete (b : Builder) : Builder :=
  match b.mode with
  | .initial => (({ b with isOld := true }.openRoot []).openHead []).closeHead.openBody []
  | .beforeRoot => ((b.openRoot []).openHead []).closeHead.openBody []
  | .beforeHead => (b.openHead []).closeHead.openBody []
  | .inHead => b.closeHead.openBody []
  | .afterHead => b.openBody []
  | _ => b

end Builder
end Html
end DocHighlighter
