/-
# Rendering a site

A site is a number of paths: a file is rendered as it is, in a directory every
file whose name ends in `.html`, at any depth.  The pages are rendered one after
the other with one engine.  A page is written only if its text changes, and not
at all in a dry run; the report counts it as changed in either case.

Work ends at the first file that cannot be read or rendered; the pages before it
stay written.
-/

import DocHighlighter.Render.Page
import DocHighlighter.Site.Files

namespace DocHighlighter

/-- Why a site cannot be rendered. -/
inductive SiteFault where
  | engine (fault : EngineFault)
  | file (fault : FileFault)
  | render (fault : RenderFault)

/-- The message about a fault. -/
def SiteFault.message : SiteFault → String
  | engine fault => fault.message
  | file fault => fault.message
  | render fault => fault.message

/-- What became of a site, with the files and the engine after it and what was told. -/
structure SiteRendering where
  result : Except SiteFault RenderReport
  files : Files
  host : Option Host
  log : Log := []

namespace Files

/-- Whether a name is that of a page. -/
def isPageName (name : String) : Bool :=
  ['.', 'h', 't', 'm', 'l'].isSuffixOf name.toList

/-- The pages below a directory, in the order of their paths. -/
def pagesBelow (fs : Files) (p : Path) (directory : Place) : List Path :=
  let found := (fs.below directory).filter fun names => names.getLast?.any isPageName
  (found.mergeSort Path.namesLe).map p.append

/-- The pages that a path stands for: those below it if it leads to a directory, else itself. -/
def pagesOf (fs : Files) (p : Path) : List Path :=
  match fs.find p with
  | .ok place =>
    if fs.isDirectory p then fs.pagesBelow p place else [p]
  | .error _ => [p]

/-- The pages that paths stand for. -/
def pages (fs : Files) (paths : List Path) : List Path :=
  paths.flatMap fs.pagesOf

/-- Renders one page of a site. -/
def renderPage (fs : Files) (p : Path) (host : Option Host) (config : HighlightConfig)
    (dryRun : Bool) : SiteRendering :=
  match fs.readText p with
  | .error fault => ⟨.error (.file fault), fs, host, []⟩
  | .ok text =>
    let r := renderText text host config
    match r.result with
    | .error fault => ⟨.error (.render fault), fs, r.host, r.log⟩
    | .ok (rendered, report) =>
      if rendered == text then ⟨.ok report, fs, r.host, r.log⟩
      else
        let report := { report with filesChanged := 1 }
        let log := r.log ++ [⟨.info, "Rendered " ++ p.text⟩]
        if dryRun then ⟨.ok report, fs, r.host, log⟩
        else
          match fs.writeText p rendered with
          | .ok fs => ⟨.ok report, fs, r.host, log⟩
          | .error fault => ⟨.error (.file fault), fs, r.host, r.log⟩

/-- Renders the pages of a site, given the report of those before. -/
def renderPages (config : HighlightConfig) (dryRun : Bool) :
    List Path → Files → Option Host → RenderReport → SiteRendering
  | [], fs, host, total => ⟨.ok total, fs, host, []⟩
  | p :: rest, fs, host, total =>
    let r := fs.renderPage p host config dryRun
    match r.result with
    | .error fault => ⟨.error fault, r.files, r.host, r.log⟩
    | .ok report =>
      let more := renderPages config dryRun rest r.files r.host (total + report)
      { more with log := r.log ++ more.log }

/-- Renders a site; without an engine with one of its own, that knows the builtin languages. -/
def renderSite (fs : Files) (paths : List Path) (host : Option Host) (config : HighlightConfig)
    (dryRun : Bool) : SiteRendering :=
  match host with
  | some h => renderPages config dryRun (fs.pages paths) fs (some h) {}
  | none =>
    match Engine.create Language.builtins config.style with
    | .ok e => renderPages config dryRun (fs.pages paths) fs (some { engine := e }) {}
    | .error fault => ⟨.error (.engine fault), fs, none, []⟩

end Files
end DocHighlighter
