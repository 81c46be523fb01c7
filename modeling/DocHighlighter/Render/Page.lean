/-
# Rendering a page

Rendering goes through four stages in a fixed order.

1. The definitions of grammars are registered with the engine.
2. Fragments are replaced by code blocks, and the fragments that remain counted.
3. The blocks are highlighted.
4. The highlighted blocks get copy buttons, if the page is to have them.

There may be no engine, or one that can do only a part: then what it cannot do
is left out.  A stage that goes wrong ends the work; what the page and the
engine have become by then is kept beside the fault.

A page that no stage changed comes back as the text it was (`renderText`).
-/

import DocHighlighter.Block.Classify
import DocHighlighter.Block.CopyButton
import DocHighlighter.Block.Highlight
import DocHighlighter.Engine.Registry
import DocHighlighter.Render.Report

namespace DocHighlighter

open Html

/-- An engine, and which of its abilities can be used. -/
structure Host where
  engine : Engine
  canRegister : Bool := true
  canHighlight : Bool := true

/-- Why a page cannot be rendered. -/
inductive RenderFault where
  | build (fault : BuildFault)
  | block (fault : BlockFault)
  | noElement (fault : NoElement)

/-- The message about a fault. -/
def RenderFault.message : RenderFault → String
  | build fault => fault.message
  | block fault => fault.message
  | noElement fault => fault.message

/-- What became of a page, with the engine after it and what was told on the way. -/
structure Rendering where
  result : Except RenderFault RenderReport
  page : Page
  host : Option Host
  log : Log := []

namespace Host

/-- Registers the definitions that come with the library, if there is an engine that can. -/
def registerAll : Option Host → Except BuildFault (List String) × Option Host × Log
  | none => (.ok [], none, [])
  | some h =>
    if h.canRegister then
      let (result, engine, log) := h.engine.registerAll Definition.standard
      (result, some { h with engine := engine }, log)
    else (.ok [], some h, [])

/-- Highlights the blocks of a page, if there is an engine that can: the page after it, how many
blocks were highlighted or what went wrong, the engine after it, and the warnings. -/
def highlight (p : Page) : Option Host → Page × Except BlockFault Nat × Option Host × Log
  | none => (p, .ok 0, none, [])
  | some h =>
    if h.canHighlight then
      let (p, done) := p.highlight h.engine
      let result := match done.fault with
        | some fault => .error fault
        | none => .ok done.count
      (p, result, some { h with engine := done.engine }, done.log)
    else (p, .ok 0, some h, [])

end Host

namespace Html.Page

/-- Gives a page its copy buttons as the settings wish: the page after it, and how many were
added or what went wrong. -/
def addWantedButtons (p : Page) (config : HighlightConfig) : Page × Except NoElement Nat :=
  if p.offersCopying config then
    let (p, done) := p.addCopyButtons config.copyButtonTitle
    match done.fault with
    | some fault => (p, .error fault)
    | none => (p, .ok done.count)
  else (p, .ok 0)

/-- The last two stages, with what was counted before them. -/
def renderBlocks (p : Page) (host : Option Host) (config : HighlightConfig)
    (report : RenderReport) (log : Log) : Rendering :=
  let (p, highlighted, host, more) := Host.highlight p host
  let log := log ++ more
  match highlighted with
  | .error fault => ⟨.error (.block fault), p, host, log⟩
  | .ok blocks =>
    let (p, buttons) := p.addWantedButtons config
    match buttons with
    | .error fault => ⟨.error (.noElement fault), p, host, log⟩
    | .ok buttons =>
      ⟨.ok { report with blocksHighlighted := blocks, copyButtons := buttons }, p, host, log⟩

/-- Renders a page. -/
def render (p : Page) (host : Option Host) (config : HighlightConfig) : Rendering :=
  let (registered, host, log) := Host.registerAll host
  match registered with
  | .error fault => ⟨.error (.build fault), p, host, log⟩
  | .ok _ =>
    let (p, found) := p.classify
    match found.fault with
    | some fault => ⟨.error (.noElement fault), p, host, log⟩
    | none =>
      p.renderBlocks host config
        { filesScanned := 1, fragmentsClassified := found.blocks.length,
          fragmentsSkipped := p.fragmentCount } log

end Html.Page

/-- What became of a text that is a page. -/
structure RenderedText where
  result : Except RenderFault (List Char × RenderReport)
  host : Option Host
  log : Log := []

/-- Renders the page that a text is; one with nothing to change stays the text it was. -/
def renderText (text : List Char) (host : Option Host) (config : HighlightConfig) :
    RenderedText :=
  let r := (Page.read text).render host config
  match r.result with
  | .error fault => ⟨.error fault, r.host, r.log⟩
  | .ok report =>
    ⟨.ok (if report.showsChange then r.page.markup else text, report), r.host, r.log⟩

end DocHighlighter
