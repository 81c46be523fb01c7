/-
# The program

The outer layer of the command line: it looks up what a command may read, runs
the command, and writes what the command changed.  What a command does is
decided by `Command.run` alone.
-/

import DocHighlighter.Command.Run

namespace DocHighlighter
namespace Program

/-- The names of the variables that hold settings. -/
def variableNames : List String :=
  let groups := [
    ("highlight", ["style", "css_selector", "copy_buttons", "copy_button_title",
      "require_copy_script"]),
    ("app", ["log_dir", "log_to_file"])]
  let names := groups.flatMap fun (group, fields) =>
    group :: fields.map fun field => group ++ "__" ++ field
  names ++ names.map fun n => String.ofList (n.toList.map Char.toUpper)

/-- The variables of the environment that hold settings. -/
def environment : IO (List (String × String)) := do
  let found ← variableNames.mapM fun name => do
    return (name, ← IO.getEnv name)
  return found.filterMap fun (name, value) => value.map fun v => (name, v)

/-- The paths that a command may read or write. -/
def pathsOf (args : List String) : List Path :=
  match Command.read args with
  | .ok (.run (.render paths _ _)) => paths
  | .ok (.run (.css _ _ (some output))) => [output]
  | .ok (.run (.highlight _ (some file))) => [file]
  | _ => []

/-- The place that a path leads to, if every name on the way is a directory. -/
def placeOf (fs : Files) (p : Path) : Place :=
  (p.parts.foldl (fun back name => if name == ".." then back.drop 1 else name :: back)
    (fs.startOf p).reverse).reverse

/-- The text that names a place to the system. -/
def nameOf (place : Place) : String :=
  "/" ++ "/".intercalate place

/-- Looks up what lies at a place, and below it. -/
partial def lookUp (fs : Files) (place : Place) : IO Files := do
  let path := (← IO.currentDir) / nameOf place
  if ← path.isDir then
    let mut fs := { fs with directories := fs.directories ++ [place] }
    for entry in ← path.readDir do
      fs ← lookUp fs (place ++ [entry.fileName])
    return fs
  else if ← path.pathExists then
    return fs.put place (← IO.FS.readBinFile path).toList
  else return fs

/-- Looks up what lies at a place where a command may make a file. -/
def lookUpTarget (fs : Files) (place : Place) : IO Files := do
  let parent := place.dropLast
  let path := (← IO.currentDir) / nameOf parent
  let fs := if ← path.isDir then { fs with directories := fs.directories ++ [parent] } else fs
  lookUp fs place

/-- Makes the directories and writes the files that a command changed. -/
def writeChanges (before after : Files) : IO Unit := do
  let here ← IO.currentDir
  for place in after.directories do
    unless before.directories.contains place do
      IO.FS.createDirAll (here / nameOf place)
  for (place, bytes) in after.files do
    if before.files.lookup place != some bytes then
      IO.FS.writeBinFile (here / nameOf place) (ByteArray.mk bytes.toArray)

/-- A record as a line of the log. -/
def lineOf (r : LogRecord) : String :=
  r.level.name ++ ": " ++ r.message

/-- Sets the log up as a command asked, and writes its records. -/
def writeLog (fs : Files) (o : Command.Outcome) : IO Unit := do
  let errors ← IO.getStderr
  for (directory, toFile) in o.logging do
    if toFile then
      let fs ← lookUp fs (placeOf fs directory)
      match Logging.setUp (some directory) toFile "idlcdoc.log" fs with
      | .error fault => errors.putStrLn fault.message
      | .ok (_, after) =>
        let lines := String.join (o.log.map fun r => lineOf r ++ "\n")
        let place := placeOf fs (directory.append ["idlcdoc.log"])
        let old := (after.files.lookup place).getD []
        writeChanges fs (after.put place (old ++ Utf8.encode lines.toList))
  for r in o.log do
    errors.putStrLn (lineOf r)

/-- The settings file in the directory that is worked in, with its name. -/
def settingsFile : IO (Option (String × String)) := do
  let path := (← IO.currentDir) / ".env"
  if ← path.pathExists then return some (".env", ← IO.FS.readFile path) else return none

/-- What a command works in. -/
def surroundings (args : List String) : IO Command.Surroundings := do
  let here := ((← IO.currentDir).toString.splitOn "/").filter (· != "")
  let mut fs : Files := { here := here }
  for p in pathsOf args do
    fs ← lookUpTarget fs (placeOf fs p)
  let input ← match Command.read args with
    | .ok (.run (.highlight _ none)) => do
      let stdin ← IO.getStdin
      pure (← stdin.readToEnd).toList
    | _ => pure []
  return { files := fs, environment := ← environment, settingsFile := ← settingsFile,
           input := input }

end Program
end DocHighlighter

open DocHighlighter in
/-- Runs a command line, and ends with its status. -/
def main (args : List String) : IO UInt32 := do
  let s ← Program.surroundings args
  let o := Command.run args s
  Program.writeChanges s.files o.files
  Program.writeLog s.files o
  IO.print (String.ofList o.output)
  match o.result with
  | .ok status => return UInt32.ofNat status
  | .error fault =>
    (← IO.getStderr).putStrLn fault.message
    return 1
