/-
# Where log records go

Records go to handlers: one prints short lines, and one writes full lines into a
file, which is kept to a size by starting a new file and keeping some of the old
ones.  A handler takes records from its level on.

`setUp` says which handlers there are, and makes the directory of the file.
-/

import DocHighlighter.Site.Files

namespace DocHighlighter
namespace Logging

/-- The levels of records, from the least grave. -/
inductive Threshold where
  | debug
  | info
  deriving DecidableEq

/-- The number of a level. -/
def Threshold.number : Threshold → Nat
  | debug => 10
  | info => 20

/-- A file that is kept to a size. -/
structure RotatingFile where
  path : Path
  /-- The size that starts a new file, in bytes. -/
  maxBytes : Nat := 10 * 1024 * 1024
  /-- How many old files are kept. -/
  backups : Nat := 5
  encoding : String := "utf-8"

/-- What takes log records. -/
structure Handler where
  /-- The file; without one, records are printed. -/
  file : Option RotatingFile := none
  level : Threshold
  format : String
  dateFormat : Option String := none

/-- What takes the records, and from which level on there are any. -/
structure Handlers where
  level : Threshold
  handlers : List Handler

/-- How a full line is written. -/
def fullFormat : String :=
  "%(asctime)s | %(levelname)-8s | %(name)s:%(lineno)d | %(message)s"

/-- How the time is written. -/
def timeFormat : String := "%Y-%m-%d %H:%M:%S"

/-- How a short line is written. -/
def shortFormat : String := "%(levelname)s: %(message)s"

/-- The directory of log files, unless another is given. -/
def defaultDirectory : Path := Path.read "logs"

/-- The handler that prints. -/
def console : Handler := { level := .info, format := shortFormat }

/-- The handler that writes a file. -/
def fileHandler (path : Path) : Handler where
  file := some { path := path }
  level := .debug
  format := fullFormat
  dateFormat := some timeFormat

/-- Sets the handlers up; `fileName` is the name of the log file. -/
def setUp (directory : Option Path) (toFile : Bool) (fileName : String) (fs : Files) :
    Except FileFault (Handlers × Files) :=
  if toFile then
    let directory := directory.getD defaultDirectory
    match fs.makeDirectory directory with
    | .error fault => .error fault
    | .ok fs =>
      let path := directory.append [fileName]
      let text := match fs.readBytes path with
        | .ok bytes => bytes
        | .error _ => []
      match fs.find path with
      | .error fault => .error fault
      | .ok place => .ok (⟨.debug, [fileHandler path, console]⟩, fs.put place text)
  else .ok (⟨.debug, [console]⟩, fs)

end Logging
end DocHighlighter
