/-
# Document types

A document type names the kind of a page, and may identify it by a public and a
system text.  A page without one, or with one of an old kind, is old: the
classes in its selectors are then compared without regard to case
(`Doctype.isOld`).
-/

import DocHighlighter.Html.Reference
import DocHighlighter.Text.Lines

namespace DocHighlighter
namespace Html

/-- What a page says about its kind. -/
structure Doctype where
  name : List Char
  publicId : Option (List Char) := none
  systemId : Option (List Char) := none
  /-- Whether it is written as it should be. -/
  wellFormed : Bool := true

namespace Doctype

/-- A quoted text at the start of a text, blanks skipped, and what follows it. -/
def quotedPart? (text : List Char) : Option (List Char × List Char) :=
  match text.dropWhile Text.isMarkupBlank with
  | '"' :: rest => within '"' rest
  | '\'' :: rest => within '\'' rest
  | _ => none
where
  /-- The text up to its closing quote. -/
  within (quote : Char) (rest : List Char) : Option (List Char × List Char) :=
    match rest.dropWhile (· != quote) with
    | _ :: tail => some (rest.takeWhile (· != quote), tail)
    | [] => none

/-- Reads what stands between the keyword and the closing bracket. -/
def read (text : List Char) : Doctype :=
  let text := text.dropWhile Text.isMarkupBlank
  let name := (text.takeWhile (!Text.isMarkupBlank ·)).map Char.toLower
  let rest := (text.dropWhile (!Text.isMarkupBlank ·)).dropWhile Text.isMarkupBlank
  let keyword := (rest.take 6).map Char.toLower
  if rest.isEmpty then { name := name, wellFormed := !name.isEmpty }
  else if keyword == ['p', 'u', 'b', 'l', 'i', 'c'] then
    match quotedPart? (rest.drop 6) with
    | none => { name := name, wellFormed := false }
    | some (publicId, tail) =>
      match quotedPart? tail with
      | some (systemId, _) => { name := name, publicId := some publicId, systemId := some systemId }
      | none => { name := name, publicId := some publicId,
                  wellFormed := tail.all Text.isMarkupBlank }
  else if keyword == ['s', 'y', 's', 't', 'e', 'm'] then
    match quotedPart? (rest.drop 6) with
    | none => { name := name, wellFormed := false }
    | some (systemId, _) => { name := name, systemId := some systemId }
  else { name := name, wellFormed := false }

/-- How the public texts of old kinds begin, in lower case. -/
def oldKinds : List String :=
  ["-//ietf//dtd html", "-//w3c//dtd html 3", "-//w3c//dtd html 4.0 frameset//",
    "-//w3c//dtd html 4.0 transitional//", "-//w3c//dtd html experimental", "-//w3c//dtd w3 html",
    "-//w3o//dtd w3 html", "-//netscape comm. corp.//dtd", "-//microsoft//dtd internet explorer",
    "-//softquad", "-//spyglass//dtd html", "-//webtechs//dtd mozilla html"]

/-- How the public texts begin that are old if no system text is given. -/
def oldAloneKinds : List String :=
  ["-//w3c//dtd html 4.01 frameset//", "-//w3c//dtd html 4.01 transitional//"]

/-- Whether a page with this document type is an old one. -/
def isOld (d : Doctype) : Bool :=
  let startsWith (kinds : List String) : Bool :=
    match d.publicId with
    | none => false
    | some id => kinds.any fun k => k.toList.isPrefixOf (id.map Char.toLower)
  !d.wellFormed || d.name != ['h', 't', 'm', 'l'] || startsWith oldKinds ||
    (d.systemId.isNone && startsWith oldAloneKinds)

end Doctype
end Html
end DocHighlighter
