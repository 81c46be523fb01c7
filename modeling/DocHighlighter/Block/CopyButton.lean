/-
# Copy buttons

A highlighted block is put into a wrapper together with a button that copies
it.  A block whose parent is a wrapper has its button already.  Buttons are
wanted by the settings, and work only on a page with their script; what the
settings require of the page is decided by `Page.offersCopying`.
-/

import DocHighlighter.Block.Marks
import DocHighlighter.Html.Rewrite
import DocHighlighter.Settings.Config

namespace DocHighlighter

open Html

/-- The buttons added so far, and what went wrong. -/
structure CopyButtons where
  count : Nat := 0
  fault : Option NoElement := none

namespace CopyButtons

/-- What a button says unless something else is asked for. -/
def defaultTitle : String := ({} : HighlightConfig).copyButtonTitle

/-- What describes a highlighted block. -/
def blockSelector : Selector :=
  { own := { name := some "pre", classes := [Marks.highlighted] } }

/-- What describes a wrapper. -/
def wrapperSelector : String :=
  "div." ++ Marks.wrapper

/-- A block with its button, as markup. -/
def markup (title : String) (pre : Node) : List Char :=
  "<div class=\"".toList ++ Marks.wrapper.toList ++ "\">".toList ++ pre.markup ++
    "<".toList ++ Marks.copyButton.toList ++ " title=\"".toList ++
    Text.escapeQuoted title.toList ++ "\">".toList ++ Marks.copyIcon.toList ++
    "</".toList ++ Marks.copyButton.toList ++ "></div>".toList

/-- Looks at an element of a page. -/
def visit (isOld : Bool) (title : String) : Visit CopyButtons := fun parent tag children c =>
  if c.fault.isSome || !blockSelector.fits isOld parent tag then ({}, c)
  else if parent.any (·.classes.contains Marks.wrapper) then ({}, c)
  else
    match elementOf (markup title (.element tag children)) wrapperSelector with
    | .ok new => ({ own := some new }, { c with count := c.count + 1 })
    | .error fault => ({}, { c with fault := some fault })

end CopyButtons

namespace Html.Page

/-- What describes the script of the buttons. -/
def copyScriptSelector : Selector :=
  { own := { name := some "script", attributePart := some ("src", Marks.copyScript.toList) } }

/-- Whether the page is to have copy buttons. -/
def offersCopying (p : Page) (config : HighlightConfig) : Bool :=
  config.copyButtons &&
    (!config.requireCopyScript || !(p.select copyScriptSelector).isEmpty)

/-- Puts copy buttons to the highlighted blocks of a page. -/
def addCopyButtons (p : Page) (title : String) : Page × CopyButtons :=
  p.rewrite (CopyButtons.visit p.isOld title) {}

end Html.Page
end DocHighlighter
