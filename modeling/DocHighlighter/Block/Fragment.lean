/-
# Fragments of code

A fragment is the lines of a piece of code as the page shows it, before any
highlighting.  Its first line is a tag that names the language; the others are
the code.  A fragment with a known tag makes a code block: the code without the
white space at its end, under the name of the language (`Fragment.classify?`).
-/

import DocHighlighter.Block.Marks
import DocHighlighter.Text.Escape

namespace DocHighlighter

/-- The lines of a raw piece of code. -/
structure Fragment where
  lines : List (List Char)

/-- A piece of code in a known language. -/
structure CodeBlock where
  language : String
  body : List Char
  deriving DecidableEq

namespace CodeBlock

/-- A code block as markup. -/
def markup (b : CodeBlock) : List Char :=
  "<pre><code class=\"".toList ++ Marks.languageStart.toList ++ b.language.toList ++
    "\">".toList ++ Text.escapeText b.body ++ "</code></pre>".toList

end CodeBlock

namespace Fragment

/-- The languages that tags name. -/
def languages : List (String × String) :=
  [("@cmake", "cmake-ext"), ("@idl", "idl"), ("@json", "json"), ("@c", "c"), ("@cpp", "cpp"),
    ("@javascript", "javascript"), ("@bash", "bash")]

/-- The tag of a fragment, empty if there is no line. -/
def tag (f : Fragment) : List Char :=
  f.lines.headD []

/-- The lines of the code. -/
def bodyLines (f : Fragment) : List (List Char) :=
  f.lines.drop 1

/-- The code of a fragment: every line ends in a newline, then the white space at the end of the
whole is taken off. -/
def body (f : Fragment) : List Char :=
  Text.stripEnd Text.isBlank (f.bodyLines.flatMap (· ++ ['\n']))

/-- The code block of a fragment, if its tag is known. -/
def classify? (f : Fragment) : Option CodeBlock :=
  (languages.lookup (String.ofList f.tag)).map fun language => ⟨language, f.body⟩

end Fragment
end DocHighlighter
