/-
# Running a command

A command line is read, then the settings are loaded, log records get their
handlers, and the command does its work.  `run` says how that ends: with a status
or with a fault that no command handles, and what was printed, told and written
until then.

The status is 0 if all went well and 1 if a path or a language is not there; a
command line that is refused has status 2.
-/

import DocHighlighter.Command.Basic
import DocHighlighter.Command.Console
import DocHighlighter.Logging.Setup
import DocHighlighter.Settings.Load
import DocHighlighter.Site.Render

namespace DocHighlighter
namespace Command

/-- What ends a command that does not handle it. -/
inductive Fault where
  | refusal
  | settings (fault : SettingsFault)
  | logging (fault : FileFault)
  | markup (fault : Console.MarkupFault)
  | engine (fault : EngineFault)
  | build (fault : BuildFault)
  | site (fault : SiteFault)
  | file (fault : FileFault)

/-- The message about a fault. -/
def Fault.message : Fault → String
  | refusal => "not enough values to unpack (expected 1, got 0)"
  | settings fault => fault.message
  | logging fault => fault.message
  | markup fault => fault.message
  | engine fault => fault.message
  | build fault => fault.message
  | site fault => fault.message
  | file fault => fault.message

/-- What a command works in. -/
structure Surroundings where
  files : Files := {}
  environment : List (String × String) := []
  /-- The text of the file of settings, and its name. -/
  settingsFile : Option (String × String) := none
  input : List Char := []

/-- How a command ends, and what it did. -/
structure Outcome where
  result : Except Fault Nat
  output : List Char := []
  files : Files
  log : Log := []
  /-- What was asked of the log records: the directory of their file, and whether there is one. -/
  logging : List (Path × Bool) := []

namespace Outcome

/-- An outcome after something that was printed and told. -/
def after (output : List Char) (log : Log) (o : Outcome) : Outcome :=
  { o with output := output ++ o.output, log := log ++ o.log }

end Outcome

/-- Prints messages one after the other, then ends. -/
def printAll (files : Files) (result : Except Fault Nat) : List String → Outcome
  | [] => { result := result, files := files }
  | message :: rest =>
    match Console.shown message with
    | .error fault => { result := .error (.markup fault), files := files }
    | .ok line => (printAll files result rest).after line []

/-- An engine for a style that knows all languages, and what was told on the way. -/
def fullEngine (style : String) : Except Fault Engine × Log :=
  match Engine.create Language.builtins style with
  | .error fault => (.error (.engine fault), [])
  | .ok e =>
    match e.registerAll Definition.standard with
    | (.ok _, e, log) => (.ok e, log)
    | (.error fault, _, log) => (.error (.build fault), log)

/-- Goes on with an engine for a style that knows all languages. -/
def withEngine (style : String) (files : Files) (next : Engine → Outcome) : Outcome :=
  match fullEngine style with
  | (.ok e, log) => (next e).after [] log
  | (.error fault, log) => { result := .error fault, files := files, log := log }

/-- What an error message begins with. -/
def errorStart : String := "[red]Error:[/] "

/-- The message about a path that leads nowhere. -/
def missingMessage (p : Path) : String :=
  errorStart ++ p.text ++ " does not exist"

/-- The lines that tell what was done. -/
def reportLines (dryRun : Bool) (r : RenderReport) : List String :=
  [(if dryRun then "[yellow]DRY RUN[/] " else "") ++ "Render complete:",
    "  Files scanned:        " ++ toString r.filesScanned,
    "  Files changed:        " ++ toString r.filesChanged,
    "  Fragments classified: " ++ toString r.fragmentsClassified,
    "  Fragments skipped:    " ++ toString r.fragmentsSkipped,
    "  Blocks highlighted:   " ++ toString r.blocksHighlighted,
    "  Copy buttons added:   " ++ toString r.copyButtons]

/-- Renders the pages of a site. -/
def runRender (paths : List Path) (dryRun noCopyButtons : Bool) (config : HighlightConfig)
    (files : Files) : Outcome :=
  match paths.filter (!files.has ·) with
  | [] =>
    let config := if noCopyButtons then { config with copyButtons := false } else config
    withEngine config.style files fun e =>
      let r := files.renderSite paths (some { engine := e }) config dryRun
      match r.result with
      | .ok report => (printAll r.files (.ok 0) (reportLines dryRun report)).after [] r.log
      | .error fault => { result := .error (.site fault), files := r.files, log := r.log }
  | missing => printAll files (.ok 1) (missing.map missingMessage)

/-- A value unless it is empty, else the other. -/
def orElse (value : Option String) (other : String) : String :=
  match value with
  | some s => if s.isEmpty then other else s
  | none => other

/-- Writes the stylesheet. -/
def runCss (style selector : Option String) (output : Option Path) (config : HighlightConfig)
    (files : Files) : Outcome :=
  match Engine.create Language.builtins (orElse style config.style) with
  | .error fault => { result := .error (.engine fault), files := files }
  | .ok e =>
    let css := (e.stylesheet (orElse selector config.cssSelector)).toList ++ ['\n']
    match output with
    | none => { result := .ok 0, output := css, files := files }
    | some p =>
      match files.writeText p css with
      | .error fault => { result := .error (.file fault), files := files }
      | .ok files => printAll files (.ok 0) ["Written " ++ p.text]

/-- Highlights a text. -/
def highlightText (e : Engine) (language : String) (files : Files) (code : List Char) : Outcome :=
  match e.highlight (String.ofList code) language with
  | .ok spans => { result := .ok 0, output := spans.toList ++ ['\n'], files := files }
  | .error fault => { result := .error (.engine fault), files := files }

/-- Highlights a file, or the input. -/
def runHighlight (language : String) (file : Option Path) (config : HighlightConfig)
    (input : List Char) (files : Files) : Outcome :=
  withEngine config.style files fun e =>
    match e.get? language, file with
    | none, _ =>
      printAll files (.ok 1) [errorStart ++ "unknown language " ++ Text.quoted language]
    | some _, none => highlightText e language files input
    | some _, some p =>
      if files.isFile p then
        match files.readText p with
        | .ok code => highlightText e language files code
        | .error fault => { result := .error (.file fault), files := files }
      else printAll files (.ok 1) [missingMessage p]

/-- A text with spaces behind it, up to a width. -/
def padded (width : Nat) (s : String) : String :=
  s ++ String.ofList (List.replicate (width - s.length) ' ')

/-- Lists the languages. -/
def runLanguages (config : HighlightConfig) (files : Files) : Outcome :=
  withEngine config.style files fun e =>
    printAll files (.ok 0) (e.languages.map fun l => padded 12 l.1 ++ " " ++ l.2.displayName)

/-- What a command does. -/
def work (command : Command) (config : HighlightConfig) (s : Surroundings) : Outcome :=
  match command with
  | render paths dryRun noCopyButtons => runRender paths dryRun noCopyButtons config s.files
  | css style selector output => runCss style selector output config s.files
  | highlight language file => runHighlight language file config s.input s.files
  | languages => runLanguages config s.files

/-- What is printed for help. -/
def helpText : String :=
  "usage: idlc-doc [-h] \x7brender,css,highlight,languages\x7d ...\n\n" ++
    "Highlight code fragments in generated IDL compiler docs.\n"

/-- Runs a command line. -/
def run (args : List String) (s : Surroundings) : Outcome :=
  match Command.read args with
  | .error .usage => { result := .ok 2, files := s.files }
  | .error .emptyValue => { result := .error .refusal, files := s.files }
  | .ok .help => { result := .ok 0, output := helpText.toList, files := s.files }
  | .ok (.run command) =>
    match Settings.load s.environment (s.settingsFile.map (·.2)) with
    | .error fault => { result := .error (.settings fault), files := s.files }
    | .ok settings =>
      let log := match s.settingsFile with
        | some (name, _) => Settings.loadedLog name
        | none => []
      let o := (work command settings.highlight s).after [] log
      { o with logging := [(settings.app.logDir, settings.app.logToFile)] }

end Command
end DocHighlighter
