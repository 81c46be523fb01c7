/-
# Lexers that need no grammar
-/

import DocHighlighter.Lexer.Bash
import DocHighlighter.Lexer.Cmake
import DocHighlighter.Lexer.Cpp
import DocHighlighter.Lexer.Javascript

namespace DocHighlighter

/-- The languages with a lexer of their own. -/
inductive ReadyMade where
  | cmake
  | json
  | c
  | cpp
  | javascript
  | bash
  deriving DecidableEq

namespace Lexer

/-- The lexer of JSON texts. -/
def json : Lexer where
  typeName := "JsonLexer"
  parentName := "Lexer"
  name := "JSON"
  aliases := ["json", "json-object"]
  filenames := ["*.json", "*.jsonl", "*.ndjson", "Pipfile.lock", "*.module", "*.xc"]
  body := .json
  origin := .readyMade "json"

end Lexer

namespace ReadyMade

/-- The lexer of a language. -/
def lexer : ReadyMade → Lexer
  | cmake => Lexer.cmake
  | json => Lexer.json
  | c => Lexer.c
  | cpp => Lexer.cpp
  | javascript => Lexer.javascript
  | bash => Lexer.bash

/-- The language of a name. -/
def ofName? : String → Option ReadyMade
  | "cmake" => some cmake
  | "json" => some json
  | "c" => some c
  | "cpp" => some cpp
  | "javascript" => some javascript
  | "bash" => some bash
  | _ => none

end ReadyMade
end DocHighlighter
