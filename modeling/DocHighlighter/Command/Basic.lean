/-
# Commands

The program has four commands: it renders the pages of a site, writes the
stylesheet, highlights a piece of code, or lists the languages.  `Command.read`
reads a command line.
-/

import DocHighlighter.Command.Arguments
import DocHighlighter.Site.Path

namespace DocHighlighter

/-- What the program is to do. -/
inductive Command where
  | render (paths : List Path) (dryRun noCopyButtons : Bool)
  | css (style selector : Option String) (output : Option Path)
  | highlight (language : String) (file : Option Path)
  | languages

/-- What a command line asks for. -/
inductive Request where
  | help
  | run (command : Command)

namespace Command

open Arguments

/-- The options of the commands. -/
inductive Key where
  | help
  | dryRun
  | noCopyButtons
  | style
  | selector
  | output
  deriving DecidableEq

/-- The option that asks for help. -/
def help : Choice Key := { key := .help, names := ["-h", "--help"] }

/-- The options of rendering. -/
def renderChoices : List (Choice Key) :=
  [help, { key := .dryRun, names := ["--dry-run"] },
    { key := .noCopyButtons, names := ["--no-copy-buttons"] }]

/-- The options of the stylesheet. -/
def cssChoices : List (Choice Key) :=
  [help, { key := .style, names := ["--style"], hasValue := true },
    { key := .selector, names := ["--selector"], hasValue := true },
    { key := .output, names := ["-o", "--output"], hasValue := true }]

/-- What a command is called, its options, and the slots of its plain arguments. -/
structure Form where
  name : String
  choices : List (Choice Key)
  slots : List Slot

/-- The forms of the commands. -/
def forms : List Form :=
  [⟨"render", renderChoices, [.several]⟩, ⟨"css", cssChoices, []⟩,
    ⟨"highlight", [help], [.one, .perhapsOne]⟩, ⟨"languages", [help], []⟩]

/-- Whether an option is given. -/
def has (r : Reading Key) (key : Key) : Bool :=
  r.options.any (·.1 == key)

/-- The value of an option, the last one if it is given several times. -/
def value? (r : Reading Key) (key : Key) : Option String :=
  (r.options.reverse.find? (·.1 == key)).map (·.2)

/-- The command of a name that arguments describe. -/
def ofReading (name : String) (r : Reading Key) : Option Command :=
  match name, r.filled with
  | "render", [paths] =>
    some (.render (paths.map Path.read) (has r .dryRun) (has r .noCopyButtons))
  | "css", [] =>
    some (.css (value? r .style) (value? r .selector) ((value? r .output).map Path.read))
  | "highlight", [[language], file] =>
    some (.highlight language (file.head?.map Path.read))
  | "languages", [] => some .languages
  | _, _ => none

/-- Reads the arguments of a command; `tooMuch` says that something before it fits nowhere. -/
def readForm (form : Form) (tooMuch : Bool) (args : List String) : Except Refusal Request := do
  let (left, r) ← Arguments.read form.choices form.slots (· == .help) args
  if has r .help then return .help
  else if tooMuch || r.tooMuch || left.any (· != .perhapsOne) then throw .usage
  else match ofReading form.name r with
    | some command => return .run command
    | none => throw .usage

/-- Reads arguments, up to the name of a command and then those of the command. -/
def readFrom (tooMuch : Bool) : List String → Except Refusal Request
  | [] => .error .usage
  | s :: rest =>
    if s == "--" then .error .usage
    else
      match classify [help] s with
      | .error refusal => .error refusal
      | .ok (.option none _) => readFrom true rest
      | .ok (.option (some _) none) => .ok .help
      | .ok (.option (some _) (some _)) => .error .usage
      | .ok _ =>
        match forms.find? (·.name == s) with
        | some form => readForm form tooMuch rest
        | none => .error .usage

/-- Reads a command line. -/
def read (args : List String) : Except Refusal Request :=
  readFrom false args

end Command
end DocHighlighter
