/-
# Loading the settings

The settings come from variables: those of the environment, and those of a file,
which count less.  Case does not count in their names.  `HIGHLIGHT` and `APP`
hold a whole group as a JSON record; `HIGHLIGHT__STYLE` and the like hold one
field, and count more than the record.  A group given as `null` is not given.

| fault | when |
|---|---|
| `unreadable` | the variable of a group is no JSON; the environment is looked at first |
| `invalid` | values do not fit; all of them are told, group by group |
-/

import DocHighlighter.Log
import DocHighlighter.Settings.Config
import DocHighlighter.Settings.Dotenv

namespace DocHighlighter

/-- The settings of the program. -/
structure Settings where
  highlight : HighlightConfig := {}
  app : AppConfig := {}

/-- Where variables come from. -/
inductive VariableSource where
  | environment
  | file

/-- Why settings cannot be loaded. -/
inductive SettingsFault where
  | unreadable (group : String) (source : VariableSource)
  | invalid (faults : List ConfigFault)

/-- The name of a source in messages. -/
def VariableSource.name : VariableSource → String
  | environment => "EnvSettingsSource"
  | file => "DotEnvSettingsSource"

/-- The message about a fault. -/
def SettingsFault.message : SettingsFault → String
  | unreadable group source =>
    "error parsing value for field \"" ++ group ++ "\" from source \"" ++ source.name ++ "\""
  | invalid faults =>
    "\n".intercalate (faults.map fun f => ".".intercalate f.place ++ ": " ++ f.misfit.message)

/-- Variables by their names in lower case, with their values. -/
abbrev Variables := List (String × Option String)

namespace Variables

/-- Variables under their names in lower case; of two with one name the later counts. -/
def ofNamed (named : List (String × Option String)) : Variables :=
  named.foldl (fun known v =>
    let name := String.ofList (v.1.toList.map Char.toLower)
    if known.any (·.1 == name) then known.map fun k => if k.1 == name then (name, v.2) else k
    else known ++ [(name, v.2)]) []

/-- What separates the names of a group and a field. -/
def separator : List Char := ['_', '_']

/-- The names in the name of a variable, after that of the group. -/
def split : List Char → List Char → List String
  | read, '_' :: '_' :: rest => String.ofList read.reverse :: split [] rest
  | read, c :: rest => split (c :: read) rest
  | read, [] => [String.ofList read.reverse]

/-- Puts a value into a record at the end of a way of names; a value on the way that is no record
stays. -/
def putAt (v : Value) : List String → List (String × Value) → List (String × Value)
  | [], fields => fields
  | [name], fields => Value.setField name v fields
  | name :: rest, fields =>
    match fields.lookup name with
    | none => Value.setField name (.record (putAt v rest [])) fields
    | some (.record inner) => Value.setField name (.record (putAt v rest inner)) fields
    | some _ => fields

/-- The fields of a group that variables hold one by one. -/
def fieldsOf (vars : Variables) (group : String) : List (String × Value) :=
  let start := group.toList ++ separator
  vars.foldl (fun fields v =>
    if start.isPrefixOf v.1.toList then
      let value := match v.2 with
        | some s => Value.text s
        | none => Value.null
      putAt value (split [] (v.1.toList.drop start.length)) fields
    else fields) []

end Variables

namespace Value

/-- Puts fields into a record, records into records; `n` bounds the depth. -/
def mergeFields : Nat → List (String × Value) → List (String × Value) → List (String × Value)
  | 0, old, _ => old
  | n + 1, old, new =>
    new.foldl (fun fields f =>
      match fields.lookup f.1, f.2 with
      | some (.record inner), .record more =>
        setField f.1 (.record (mergeFields n inner more)) fields
      | _, v => setField f.1 v fields) old

/-- The greatest depth to which records are merged. -/
def greatestDepth : Nat := 1000

/-- A value with a newer one put over it. -/
def merge (old new : Option Value) : Option Value :=
  match old, new with
  | some (.record fields), some (.record more) =>
    some (.record (mergeFields greatestDepth fields more))
  | old, none => old
  | _, some v => some v

end Value

namespace Variables

/-- The value that variables hold for a group. -/
def group? (vars : Variables) (source : VariableSource) (group : String) :
    Except SettingsFault (Option Value) :=
  let fields := vars.fieldsOf group
  match vars.lookup group with
  | some (some text) =>
    match Value.read? text with
    | none => .error (.unreadable group source)
    | some .null => .ok none
    | some v => .ok (if fields.isEmpty then some v else
        match v with
        | .record _ => Value.merge (some v) (some (.record fields))
        | _ => some v)
  | _ => .ok (if fields.isEmpty then none else some (.record fields))

end Variables

namespace Settings

/-- The names of the groups. -/
def highlightGroup : String := "highlight"

@[inherit_doc highlightGroup]
def appGroup : String := "app"

/-- Reads a group: its default if it is not given. -/
def readGroup {α : Type} (group expected : String) (default : α)
    (read : List (String × Value) → Except (List ConfigFault) α) (v : Option Value) :
    α × List ConfigFault :=
  match v with
  | none => (default, [])
  | some (.record fields) =>
    match read fields with
    | .ok a => (a, [])
    | .error faults => (default, faults.map fun f => { f with place := group :: f.place })
  | some _ => (default, [⟨[group], .notRecord expected⟩])

/-- The values of both groups that variables hold. -/
def groups (vars : Variables) (source : VariableSource) :
    Except SettingsFault (Option Value × Option Value) := do
  let highlight ← vars.group? source highlightGroup
  let app ← vars.group? source appGroup
  return (highlight, app)

/-- The settings that values make. -/
def ofValues (highlight app : Option Value) : Except SettingsFault Settings :=
  let (h, e₁) := readGroup highlightGroup "HighlightConfig" {} HighlightConfig.read highlight
  let (a, e₂) := readGroup appGroup "AppConfig" {} AppConfig.read app
  match e₁ ++ e₂ with
  | [] => .ok ⟨h, a⟩
  | faults => .error (.invalid faults)

/-- Loads the settings from the environment and the text of a file, if there is one. -/
def load (environment : List (String × String)) (file : Option String) :
    Except SettingsFault Settings := do
  let (highlight, app) ←
    groups (Variables.ofNamed (environment.map fun v => (v.1, some v.2))) .environment
  let (oldHighlight, oldApp) ← match file with
    | none => pure (none, none)
    | some text => groups (Variables.ofNamed (Dotenv.read environment text)) .file
  ofValues (Value.merge oldHighlight highlight) (Value.merge oldApp app)

/-- What is told about settings that were loaded with a file of the given name. -/
def loadedLog (fileName : String) : Log :=
  [⟨.info, "Settings loaded .env from: " ++ fileName⟩]

end Settings
end DocHighlighter
