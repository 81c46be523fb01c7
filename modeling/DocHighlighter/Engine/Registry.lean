/-
# Definitions of grammars

A definition builds a grammar for an engine that is to have it.  Definitions are
found in modules, which are visited in the order of their names: a module may
fail to load, have no definition, or have something else in its place, and then
it is passed over (`discover`).  Of two definitions of one name the later counts,
at the place of the earlier.

`registerAll` registers every definition that the engine does not know.  One
that needs something which is not there is passed over with a warning; any other
fault ends the work.
-/

import DocHighlighter.Engine.Basic
import DocHighlighter.Language.Idl
import DocHighlighter.Log

namespace DocHighlighter

/-- A named way to build a grammar. -/
structure Definition where
  name : String
  build : GrammarFactory

/-- What a module turns out to hold. -/
inductive ModuleContent where
  /-- Loading the module fails. -/
  | broken
  | noDefinition
  /-- Something that is no definition stands where one should. -/
  | malformed
  | definition (d : Definition)

/-- A module among grammars. -/
structure GrammarModule where
  /-- The full name of the module, with dots. -/
  name : String
  content : ModuleContent

/-- Modules in the order in which they are visited: by their names. -/
def GrammarModule.inOrder (modules : List GrammarModule) : List GrammarModule :=
  modules.mergeSort fun m n => decide (m.name ≤ n.name)

namespace Definition

/-- Puts a definition at the place of the one with its name, else at the end. -/
def insert (d : Definition) (known : List Definition) : List Definition :=
  if known.any (·.name == d.name) then
    known.map fun k => if k.name == d.name then d else k
  else known ++ [d]

/-- Whether a module is one of the package's own tools and no grammar. -/
def isTool (name : String) : Bool :=
  [".model", ".compile", ".__init__"].any fun tail => tail.toList.isSuffixOf name.toList

/-- Takes what a module holds into the definitions. -/
def discoverOne (known : List Definition) (m : GrammarModule) : List Definition × Log :=
  if isTool m.name then (known, [])
  else match m.content with
    | .broken => (known, [⟨.error, "Failed to import grammar module: " ++ m.name⟩])
    | .noDefinition => (known, [])
    | .malformed =>
      (known, [⟨.warning,
        "Module " ++ m.name ++ " has 'definition' but doesn't implement GrammarDefinition"⟩])
    | .definition d => (d.insert known, [])

/-- The definitions that modules hold, besides those known. -/
def discover (known : List Definition) : List GrammarModule → List Definition × Log
  | [] => (known, [])
  | m :: rest =>
    let (known, log) := discoverOne known m
    let (known, more) := discover known rest
    (known, log ++ more)

/-- CMake with one more command. -/
def cmakeExt : Definition where
  name := "cmake-ext"
  build := fun e =>
    match e.get? "cmake" with
    | none => .error (.unavailable "Base grammar 'cmake' is not available")
    | some base => .ok { base with
        name := "cmake-ext"
        displayName := "CMakeExt"
        keywords := Grammar.wordSet ("idlc_compile" :: base.keywords)
        filenames := []
        derivedFrom := some base.name }

/-- The interface definition language. -/
def idl : Definition where
  name := "idl"
  build := fun _ => .ok Language.Idl.grammar

/-- The definitions that come with the library, in the order of their modules. -/
def standard : List Definition := [cmakeExt, idl]

end Definition

namespace Engine

/-- Registers definitions one after the other: the names newly registered, or the fault that
ended the work; the engine in either case; and the warnings. -/
def registerAll (e : Engine) :
    List Definition → Except BuildFault (List String) × Engine × Log
  | [] => (.ok [], e, [])
  | d :: rest =>
    match e.register d.name d.build with
    | .ok (added, e) =>
      let (result, e, log) := registerAll e rest
      (result.map fun names => if added then d.name :: names else names, e, log)
    | .error fault =>
      if fault.isLookup then
        let (result, e, log) := registerAll e rest
        (result, e,
          ⟨.warning, "Grammar " ++ d.name ++ " not registered: " ++ fault.message⟩ :: log)
      else (.error fault, e, [])

end Engine
end DocHighlighter
