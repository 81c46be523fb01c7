/-
# The engine

An engine holds the table of languages, in the order of their registration, and
the lexers made so far.  A language is found by its name in the table, else by
an alias of its grammar.  Lexers are made when they are first asked for and kept
under the name of the grammar; the name in the table may be another one.

Registering a language under a new name puts its grammar at the end of the
table; a name that is taken stays as it is, and then no grammar is built.
-/

import DocHighlighter.Grammar.Compile
import DocHighlighter.Highlight.Spans
import DocHighlighter.Highlight.Style
import DocHighlighter.Language.Builtin

namespace DocHighlighter

/-- A highlighting engine. -/
structure Engine where
  /-- The grammars by the names they are registered under, in order. -/
  languages : List (String × Grammar)
  /-- The lexers made so far, by the names of their grammars. -/
  lexers : List (String × Lexer) := []
  style : String := "default"

/-- Why a grammar cannot be built. -/
inductive BuildFault where
  /-- Something that the grammar needs is not there. -/
  | unavailable (message : String)
  /-- A key that the grammar needs is not there. -/
  | missingKey (key : String)
  /-- The grammar is wrong in some other way. -/
  | invalid (message : String)
  deriving DecidableEq

namespace BuildFault

/-- The message about a fault. -/
def message : BuildFault → String
  | unavailable message => message
  | missingKey key => Text.quoted key
  | invalid message => message

/-- Whether a fault says that something is not there. -/
def isLookup : BuildFault → Bool
  | unavailable _ => true
  | missingKey _ => true
  | invalid _ => false

end BuildFault

/-- What builds a grammar, given the engine that is to have it. -/
abbrev GrammarFactory := Engine → Except BuildFault Grammar

/-- Why an engine cannot do what it is asked for. -/
inductive EngineFault where
  | unknownStyle (style : String)
  | unknownLanguage (name : String)
  | unknownTag (fault : UnknownTag)
  | lex (fault : LexFault)

/-- The message about a fault. -/
def EngineFault.message : EngineFault → String
  | unknownStyle style => "Could not find style module 'pygments.styles." ++ style ++ "'."
  | unknownLanguage name => "No grammar registered for language " ++ Text.quoted name
  | unknownTag fault => Text.quoted fault.tag
  | lex fault => fault.message

namespace Engine

/-- An engine for a style, with the given languages. -/
def create (languages : List (String × Grammar)) (style : String) : Except EngineFault Engine :=
  if Style.isKnown style then .ok ⟨languages, [], style⟩ else .error (.unknownStyle style)

/-- The names of the languages, in order. -/
def names (e : Engine) : List String :=
  e.languages.map (·.1)

/-- The grammar registered under a name, else the first that has the name as an alias. -/
def get? (e : Engine) (name : String) : Option Grammar :=
  match e.languages.lookup name with
  | some g => some g
  | none => (e.languages.find? fun l => l.2.aliases.contains name).map (·.2)

/-- Registers the grammar that a factory builds, unless the name is taken; whether it did, and
the engine after it. -/
def register (e : Engine) (name : String) (factory : GrammarFactory) :
    Except BuildFault (Bool × Engine) :=
  match e.languages.lookup name with
  | some _ => .ok (false, e)
  | none =>
    match factory e with
    | .ok g => .ok (true, { e with languages := e.languages ++ [(name, g)] })
    | .error fault => .error fault

/-- The lexer of a language, made if need be, and the engine that keeps it. -/
def lexer (e : Engine) (name : String) : Except EngineFault (Lexer × Engine) :=
  match e.get? name with
  | none => .error (.unknownLanguage name)
  | some g =>
    match e.lexers.lookup g.name with
    | some l => .ok (l, e)
    | none =>
      match g.compile with
      | .ok l => .ok (l, { e with lexers := (g.name, l) :: e.lexers })
      | .error fault => .error (.unknownTag fault)

/-- The engine after it has been asked for a lexer. -/
def keepLexer (e : Engine) (name : String) : Engine :=
  match e.lexer name with
  | .ok (_, e) => e
  | .error _ => e

/-- The tokens of a text in a language, as the lexer gives them. -/
def rawTokens (e : Engine) (code name : String) : Except EngineFault (List Token) := do
  let (l, _) ← e.lexer name
  match l.tokensOf .keepingLines code with
  | .ok tokens => return tokens
  | .error fault => throw (.lex fault)

/-- The tokens of a text in a language, neighbours of one kind joined. -/
def tokenize (e : Engine) (code name : String) : Except EngineFault (List Token) :=
  (e.rawTokens code name).map Token.merge

/-- A text in a language as spans of markup. -/
def highlight (e : Engine) (code name : String) : Except EngineFault String :=
  (e.rawTokens code name).map Spans.ofTokens

/-- The rules for highlighted spans under a selector. -/
def stylesheet (e : Engine) (selector : String) : String :=
  Style.stylesheet e.style selector

end Engine
end DocHighlighter
