/-
# What a user chooses

The choices are made in two groups: how pages are highlighted, and how the
program runs.  A group is read from a record of values, field by field
(`HighlightConfig.read`, `AppConfig.read`).  A field that is not given has its
default, one that is not known does not count, and all the faults of a group are
told together, in the order of its fields.

A choice between yes and no is written as such, as 1 or 0, or in one of several
words, in any case of letters.
-/

import DocHighlighter.Highlight.Style
import DocHighlighter.Settings.Value
import DocHighlighter.Site.Path
import DocHighlighter.Text.Escape

namespace DocHighlighter

/-- The choices for highlighting and copy buttons. -/
structure HighlightConfig where
  style : String := "default"
  /-- The selector that the style applies under. -/
  cssSelector : String := ".highlight"
  copyButtons : Bool := true
  copyButtonTitle : String := "Copy to clipboard"
  /-- Whether only pages with the script of the buttons get buttons. -/
  requireCopyScript : Bool := true
  deriving DecidableEq

/-- The choices for running the program. -/
structure AppConfig where
  logDir : Path := Path.read "logs"
  logToFile : Bool := true

/-- What is wrong with a value. -/
inductive Misfit where
  | notText
  | notChoice
  | unknownChoice
  | notPath
  | notRecord (expected : String)
  | unknownStyle (style : String)
  deriving DecidableEq

namespace Misfit

/-- The short name of a misfit. -/
def code : Misfit → String
  | notText => "string_type"
  | notChoice => "bool_type"
  | unknownChoice => "bool_parsing"
  | notPath => "path_type"
  | notRecord _ => "model_type"
  | unknownStyle _ => "value_error"

/-- The message about a misfit. -/
def message : Misfit → String
  | notText => "Input should be a valid string"
  | notChoice => "Input should be a valid boolean"
  | unknownChoice => "Input should be a valid boolean, unable to interpret input"
  | notPath => "Input is not a valid path for <class 'pathlib.Path'>"
  | notRecord expected => "Input should be a valid dictionary or instance of " ++ expected
  | unknownStyle style => "Value error, Unknown Pygments style: " ++ Text.quoted style

end Misfit

/-- A misfit, and the names that lead to its value. -/
structure ConfigFault where
  place : List String
  misfit : Misfit

namespace Value

/-- The words for yes. -/
def yesWords : List String := ["1", "true", "t", "yes", "y", "on"]

/-- The words for no. -/
def noWords : List String := ["0", "false", "f", "no", "n", "off"]

/-- Reads a text. -/
def asText : Value → Except Misfit String
  | text s => .ok s
  | _ => .error .notText

/-- Reads a choice between yes and no. -/
def asChoice : Value → Except Misfit Bool
  | bool b => .ok b
  | number (some n) =>
    if n == 1 then .ok true else if n == 0 then .ok false else .error .unknownChoice
  | text s =>
    let word := String.ofList (s.toList.map Char.toLower)
    if yesWords.contains word then .ok true
    else if noWords.contains word then .ok false
    else .error .unknownChoice
  | _ => .error .notChoice

/-- Reads the name of a style. -/
def asStyle (v : Value) : Except Misfit String :=
  match v.asText with
  | .ok s => if Style.isKnown s then .ok s else .error (.unknownStyle s)
  | .error m => .error m

/-- Reads a path. -/
def asPath : Value → Except Misfit Path
  | text s => .ok (Path.read s)
  | _ => .error .notPath

end Value

/-- Reads a field of a record: its value or its default, and what is wrong with it. -/
def readField {α : Type} (fields : List (String × Value)) (name : String) (default : α)
    (read : Value → Except Misfit α) : α × List ConfigFault :=
  match fields.lookup name with
  | none => (default, [])
  | some v =>
    match read v with
    | .ok a => (a, [])
    | .error m => (default, [⟨[name], m⟩])

/-- Reads the choices for highlighting. -/
def HighlightConfig.read (fields : List (String × Value)) :
    Except (List ConfigFault) HighlightConfig :=
  let d : HighlightConfig := {}
  let (style, e₁) := readField fields "style" d.style Value.asStyle
  let (cssSelector, e₂) := readField fields "css_selector" d.cssSelector Value.asText
  let (copyButtons, e₃) := readField fields "copy_buttons" d.copyButtons Value.asChoice
  let (title, e₄) := readField fields "copy_button_title" d.copyButtonTitle Value.asText
  let (script, e₅) := readField fields "require_copy_script" d.requireCopyScript Value.asChoice
  match e₁ ++ e₂ ++ e₃ ++ e₄ ++ e₅ with
  | [] => .ok ⟨style, cssSelector, copyButtons, title, script⟩
  | faults => .error faults

/-- Reads the choices for running the program. -/
def AppConfig.read (fields : List (String × Value)) : Except (List ConfigFault) AppConfig :=
  let d : AppConfig := {}
  let (logDir, e₁) := readField fields "log_dir" d.logDir Value.asPath
  let (logToFile, e₂) := readField fields "log_to_file" d.logToFile Value.asChoice
  match e₁ ++ e₂ with
  | [] => .ok ⟨logDir, logToFile⟩
  | faults => .error faults

end DocHighlighter
