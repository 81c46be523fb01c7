/-
# Files

What a program can see of a file system: files with their bytes, directories,
and the directory that it works in.  A directory is there if it was made or
something lies in it.  Finding what a path leads to goes name by name, and only
a directory can be left by `..`; at the top that leads nowhere else.

`Files.write` changes one file and nothing else.
-/

import DocHighlighter.Site.Path
import DocHighlighter.Text.Utf8

namespace DocHighlighter

/-- The names on the way to a file or a directory, from the top. -/
abbrev Place := List String

/-- Files and directories. -/
structure Files where
  /-- The files with their bytes. -/
  files : List (Place × List UInt8) := []
  /-- The directories that were made. -/
  directories : List Place := []
  /-- The directory that is worked in. -/
  here : Place := []

/-- What lies at a place. -/
inductive Entry where
  | file (bytes : List UInt8)
  | directory

/-- Why a file cannot be had. -/
inductive FileFault where
  | missing
  | isDirectory
  | notDirectory
  /-- A file stands where a directory was to be made. -/
  | alreadyThere
  | noText (fault : Utf8.Fault)
  deriving DecidableEq

/-- The message about a file that cannot be had. -/
def FileFault.message : FileFault → String
  | missing => "No such file or directory"
  | isDirectory => "Is a directory"
  | notDirectory => "Not a directory"
  | alreadyThere => "File exists"
  | noText fault => fault.message

namespace Files

/-- The places of all that is there, but for directories on the way to something. -/
def places (fs : Files) : List Place :=
  fs.files.map (·.1) ++ fs.directories ++ [fs.here]

/-- What lies at a place. -/
def at? (fs : Files) (place : Place) : Option Entry :=
  match fs.files.lookup place with
  | some bytes => some (.file bytes)
  | none =>
    if fs.places.any fun p => place.isPrefixOf p then some .directory else none

/-- The place that names lead to from a directory, itself given backwards. -/
def follow (fs : Files) : Place → List String → Except FileFault Place
  | back, [] => .ok back.reverse
  | back, name :: rest =>
    match fs.at? back.reverse with
    | none => .error .missing
    | some (.file _) => .error .notDirectory
    | some .directory =>
      if name == ".." then follow fs (back.drop 1) rest else follow fs (name :: back) rest

/-- The directory that a path starts from. -/
def startOf (fs : Files) (p : Path) : Place :=
  match p.start with
  | .here => fs.here
  | .top => []
  | .doubleTop => []

/-- The place that a path leads to. -/
def find (fs : Files) (p : Path) : Except FileFault Place :=
  fs.follow (fs.startOf p).reverse p.parts

/-- What a path leads to. -/
def entry (fs : Files) (p : Path) : Except FileFault Entry :=
  match fs.find p with
  | .error fault => .error fault
  | .ok place =>
    match fs.at? place with
    | some e => .ok e
    | none => .error .missing

/-- Whether a path leads to anything. -/
def has (fs : Files) (p : Path) : Bool :=
  match fs.entry p with
  | .ok _ => true
  | .error _ => false

/-- Whether a path leads to a directory. -/
def isDirectory (fs : Files) (p : Path) : Bool :=
  match fs.entry p with
  | .ok .directory => true
  | _ => false

/-- Whether a path leads to a file. -/
def isFile (fs : Files) (p : Path) : Bool :=
  match fs.entry p with
  | .ok (.file _) => true
  | _ => false

/-- The bytes of the file that a path leads to. -/
def readBytes (fs : Files) (p : Path) : Except FileFault (List UInt8) :=
  match fs.entry p with
  | .ok (.file bytes) => .ok bytes
  | .ok .directory => .error .isDirectory
  | .error fault => .error fault

/-- The text of the file that a path leads to, with newlines in one spelling. -/
def readText (fs : Files) (p : Path) : Except FileFault (List Char) :=
  match fs.readBytes p with
  | .error fault => .error fault
  | .ok bytes =>
    match Utf8.decode bytes with
    | .error fault => .error (.noText fault)
    | .ok text => .ok (Text.unifyNewlines text)

/-- Puts bytes at a place. -/
def put (fs : Files) (place : Place) (bytes : List UInt8) : Files :=
  if fs.files.any (·.1 == place) then
    { fs with files := fs.files.map fun f => if f.1 == place then (place, bytes) else f }
  else { fs with files := fs.files ++ [(place, bytes)] }

/-- Writes a text to the file that a path leads to, which is made if need be. -/
def writeText (fs : Files) (p : Path) (text : List Char) : Except FileFault Files :=
  match fs.find p with
  | .error fault => .error fault
  | .ok place =>
    match fs.at? place with
    | some .directory => .error .isDirectory
    | _ => .ok (fs.put place (Utf8.encode text))

/-- The places on the way to a place, that one included, but not the start. -/
def waysTo : Place → List Place
  | [] => []
  | name :: rest => [name] :: (waysTo rest).map (name :: ·)

/-- What lies below a directory at any depth, named from there. -/
def below (fs : Files) (directory : Place) : List Place :=
  (fs.places.flatMap fun p =>
    if directory.isPrefixOf p then waysTo (p.drop directory.length) else []).eraseDups

/-- Makes a directory, and those on the way to it. -/
def makeDirectory (fs : Files) (p : Path) : Except FileFault Files :=
  go fs (fs.startOf p).reverse p.parts
where
  /-- Goes on from a directory, given backwards. -/
  go (fs : Files) : Place → List String → Except FileFault Files
    | _, [] => .ok fs
    | back, name :: rest =>
      if name == ".." then go fs (back.drop 1) rest
      else
        let place := (name :: back).reverse
        match fs.at? place with
        | some .directory => go fs (name :: back) rest
        | some (.file _) => .error (if rest.isEmpty then .alreadyThere else .notDirectory)
        | none => go { fs with directories := fs.directories ++ [place] } (name :: back) rest

end Files
end DocHighlighter
