/-
# CMake

A command name opens its arguments, in which parentheses nest.
-/

import DocHighlighter.Lexer.Basic

namespace DocHighlighter
namespace Lexer

open Scanner

namespace Cmake

/-- Names that CMake predefines for platforms and compilers. -/
def platforms : List Rule := [
  on (r"\b(WIN32|UNIX|APPLE|CYGWIN|BORLAND|MINGW|MSVC|MSVC_IDE|MSVC60|" ++
    r"MSVC70|MSVC71|MSVC80|MSVC90)\b") .keyword]

/-- Blanks and comments. -/
def blanks : List Rule := [
  on r"[ \t]+" .whitespace,
  on r"#\[(?P<level>=*)\[[\w\W]*?\](?P=level)\]" .comment,
  on r"#.*\n" .comment]

/-- What stands between commands. -/
def root : List Rule :=
  onGroups r"\b(\w+)([ \t]*)(\()"
    [.token .nameBuiltin, .token .whitespace, .token .punctuation] [.enter "args"] ::
  platforms ++ blanks

/-- What stands between the parentheses of a command. -/
def arguments : List Rule := [
  on r"\(" .punctuation [.again],
  on r"\)" .punctuation [.pop],
  onGroups r"(\$\{)(.+?)(\})" [.token .operator, .token .nameVariable, .token .operator],
  onGroups r"(\$ENV\{)(.+?)(\})" [.token .operator, .token .nameVariable, .token .operator],
  onGroups r"(\$<)(.+?)(>)" [.token .operator, .token .nameVariable, .token .operator],
  on r#"(?s)".*?""# .stringDouble,
  on r"\\\S+" .string,
  on r"\[(?P<level>=*)\[[\w\W]*?\](?P=level)\]" .stringMultiline,
  on r##"[^)$"# \t\n]+"## .string,
  on r"\n" .whitespace] ++ platforms ++ blanks

end Cmake

/-- The lexer of CMake scripts. -/
def cmake : Lexer where
  typeName := "CMakeLexer"
  parentName := "RegexLexer"
  name := "CMake"
  aliases := ["cmake"]
  filenames := ["*.cmake", "CMakeLists.txt"]
  body := .table { multiLine := true } [("root", Cmake.root), ("args", Cmake.arguments)]
  origin := .readyMade "cmake"

end Lexer
end DocHighlighter
