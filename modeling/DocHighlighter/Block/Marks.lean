/-
# Marks on a page

The classes and elements by which a page marks its code: the class of a raw
fragment and of its lines, the class that names a language, the class of a block
that is highlighted, and the elements of the copy button.
-/

import DocHighlighter.Html.Node

namespace DocHighlighter
namespace Marks

/-- The class of a raw fragment. -/
def fragment : String := "fragment"

/-- The class of a line of a fragment. -/
def line : String := "line"

/-- What a class begins with that names a language. -/
def languageStart : String := "language-"

/-- The class of a block that is highlighted. -/
def highlighted : String := "highlight"

/-- The class of what holds a block together with its copy button. -/
def wrapper : String := "doxygen-awesome-fragment-wrapper"

/-- The name of the copy button's element. -/
def copyButton : String := "doxygen-awesome-fragment-copy-button"

/-- A part of the address of the script that makes copy buttons work. -/
def copyScript : String := "fragment-copy-button"

/-- The drawing on a copy button. -/
def copyIcon : String :=
  "<svg xmlns=\"http://www.w3.org/2000/svg\" viewBox=\"0 0 24 24\" width=\"24\" height=\"24\">" ++
  "<path d=\"M0 0h24v24H0V0z\" fill=\"none\"/>" ++
  "<path d=\"M16 1H4c-1.1 0-2 .9-2 2v14h2V3h12V1zm3 4H8c-1.1 0-2 .9-2 2v14c0 1.1.9 2 2 2h11" ++
  "c1.1 0 2-.9 2-2V7c0-1.1-.9-2-2-2zm0 16H8V7h11v14z\"/></svg>"

/-- The language that the classes of an element name: the first of them that names one counts,
and an empty name is none. -/
def languageOf (t : Html.Tag) : Option String :=
  match t.classes.find? fun c => languageStart.toList.isPrefixOf c.toList with
  | none => none
  | some c =>
    match c.toList.drop languageStart.toList.length with
    | [] => none
    | name => some (String.ofList name)

end Marks
end DocHighlighter
