/-
# Highlighting the blocks of a page

A block is a `code` element in a `pre`.  If its classes name a language that the
engine knows, and the `pre` is not marked as highlighted, a new `pre` takes its
place: marked, with the same classes, and in it the code as spans.  A language
that the engine does not know is told in a warning.

Work ends at the first block that cannot be highlighted; what was replaced until
then stays replaced.
-/

import DocHighlighter.Block.Marks
import DocHighlighter.Engine.Basic
import DocHighlighter.Html.Rewrite
import DocHighlighter.Log

namespace DocHighlighter

open Html

/-- Why a block cannot be highlighted. -/
inductive BlockFault where
  | engine (fault : EngineFault)
  | noElement (fault : NoElement)

/-- The message about a fault. -/
def BlockFault.message : BlockFault → String
  | engine fault => fault.message
  | noElement fault => fault.message

/-- The engine, the blocks highlighted so far, the warnings, and what went wrong. -/
structure Highlighting where
  engine : Engine
  count : Nat := 0
  log : Log := []
  fault : Option BlockFault := none

namespace Highlighting

/-- What describes the code of a block. -/
def codeSelector : Selector :=
  { own := { name := some "code" }, parent := some { name := some "pre" } }

/-- Classes as the value of an attribute. -/
def classValue (classes : List String) : List Char :=
  Text.escapeQuoted (String.intercalate " " classes).toList

/-- A highlighted block as markup. -/
def markup (pre code : Tag) (spans : String) : List Char :=
  "<pre class=\"".toList ++ classValue (pre.classes ++ [Marks.highlighted]) ++
    "\"><code class=\"".toList ++ classValue code.classes ++ "\">".toList ++ spans.toList ++
    "</code></pre>".toList

/-- Highlights the code of a block in a language that the engine knows. -/
def highlight (h : Highlighting) (pre code : Tag) (children : List Node) (language : String) :
    Replacement × Highlighting :=
  let text := String.ofList (Node.textContents children)
  let kept := { h with engine := h.engine.keepLexer language }
  match h.engine.highlight text language with
  | .error fault => ({}, { kept with fault := some (.engine fault) })
  | .ok spans =>
    match elementOf (markup pre code spans) "pre" with
    | .ok new => ({ around := some new }, { kept with count := kept.count + 1 })
    | .error fault => ({}, { kept with fault := some (.noElement fault) })

/-- Looks at an element of a page. -/
def visit (isOld : Bool) : Visit Highlighting := fun parent tag children h =>
  match parent with
  | none => ({}, h)
  | some pre =>
    if h.fault.isSome || !codeSelector.fits isOld parent tag then ({}, h)
    else if pre.classes.contains Marks.highlighted then ({}, h)
    else
      match Marks.languageOf tag with
      | none => ({}, h)
      | some language =>
        match h.engine.get? language with
        | some _ => h.highlight pre tag children language
        | none =>
          let warning : LogRecord := ⟨.warning,
            "No grammar for language " ++ Text.quoted language ++ ", left as is"⟩
          ({}, { h with log := h.log ++ [warning] })

end Highlighting

/-- Highlights the blocks of a page. -/
def Html.Page.highlight (p : Page) (e : Engine) : Page × Highlighting :=
  p.rewrite (Highlighting.visit p.isOld) { engine := e }

end DocHighlighter
