/-
# Shell scripts

Substitutions of all kinds nest: arithmetic, commands, parameters and
backticks each have a state, in which everything from the root may stand.
-/

import DocHighlighter.Lexer.Basic

namespace DocHighlighter
namespace Lexer

open Scanner

namespace Bash

/-- What a dollar sign introduces. -/
def substitutions : List Rule := [
  on r"\$\(\(" .keyword [.enter "math"],
  on r"\$\(" .keyword [.enter "paren"],
  on r"\$\{#?" .stringInterpol [.enter "curly"],
  on r"\$[a-zA-Z_]\w*" .nameVariable,
  on r"\$(?:\d+|[#$?!_*@-])" .nameVariable,
  on r"\$" .text]

/-- Keywords, builtin commands, comments, assignments and here documents. -/
def basic : List Rule := [
  onGroups (r"\b(if|fi|else|while|in|do|done|for|then|return|function|case|" ++
    r"select|break|continue|until|esac|elif)(?![\w#$?!*@-])(\s*)")
    [.token .keyword, .token .whitespace],
  on (r"\b(alias|bg|bind|builtin|caller|cd|command|compgen|" ++
    r"complete|declare|dirs|disown|echo|enable|eval|exec|exit|" ++
    r"export|false|fc|fg|getopts|hash|help|history|jobs|kill|let|" ++
    r"local|logout|popd|printf|pushd|pwd|read|readonly|set|shift|" ++
    r"shopt|source|suspend|test|time|times|trap|true|type|typeset|" ++
    r"ulimit|umask|unalias|unset|wait)(?=[\s)`])") .nameBuiltin,
  on r"\A#!.+\n" .commentHashbang,
  on r"#.*\n" .commentSingle,
  on r"\\[\w\W]" .stringEscape,
  onGroups r"(\b\w+)(\s*)(\+?=)" [.token .nameVariable, .token .whitespace, .token .operator],
  on r"[\[\]{}()=]" .operator,
  on r"<<<" .operator,
  on r"<<-?\s*(\'?)\\?(\w+)[\w\W]+?\2" .string,
  on r"&&|\|\|" .operator]

/-- Strings, numbers, separators and plain words. -/
def data : List Rule := [
  on r#"(?s)\$?"(\\.|[^"\\$])*""# .stringDouble,
  on r#"""# .stringDouble [.enter "string"],
  on r"(?s)\$'(\\\\|\\[0-7]+|\\.|[^'\\])*'" .stringSingle,
  on r"(?s)'.*?'" .stringSingle,
  on r";" .punctuation,
  on r"&" .punctuation,
  on r"\|" .punctuation,
  on r"\s+" .whitespace,
  on r"\d+\b" .number,
  on r#"[^=\s\[\]{}()$"\'`\\<&|;]+"# .text,
  on r"<" .text]

def root : List Rule :=
  basic ++ [on r"`" .stringBacktick [.enter "backticks"]] ++ data ++ substitutions

def string : List Rule := [
  on r#"""# .stringDouble [.pop],
  on r#"(?s)(\\\\|\\[0-7]+|\\.|[^"\\$])+"# .stringDouble] ++ substitutions

def curly : List Rule := [
  on r"\}" .stringInterpol [.pop],
  on r":-" .keyword,
  on r"\w+" .nameVariable,
  on r#"[^}:"\'`$\\]+"# .punctuation,
  on r":" .punctuation] ++ root

def paren : List Rule :=
  on r"\)" .keyword [.pop] :: root

def math : List Rule := [
  on r"\)\)" .keyword [.pop],
  on r"\*\*|\|\||<<|>>|[-+*/%^|&<>]" .operator,
  on r"\d+#[\da-zA-Z]+" .number,
  on r"\d+#(?! )" .number,
  on r"0[xX][\da-fA-F]+" .number,
  on r"\d+" .number,
  on r"[a-zA-Z_]\w*" .nameVariable] ++ root

def backticks : List Rule :=
  on r"`" .stringBacktick [.pop] :: root

end Bash

/-- The lexer of shell scripts. -/
def bash : Lexer where
  typeName := "BashLexer"
  parentName := "RegexLexer"
  name := "Bash"
  aliases := ["bash", "sh", "ksh", "zsh", "shell", "openrc"]
  filenames := ["*.sh", "*.ksh", "*.bash", "*.ebuild", "*.eclass", "*.exheres-0", "*.exlib",
    "*.zsh", ".bashrc", "bashrc", ".bash_*", "bash_*", "zshrc", ".zshrc", ".kshrc", "kshrc",
    "PKGBUILD"]
  body := .table { multiLine := true } [
    ("root", Bash.root), ("string", Bash.string), ("curly", Bash.curly), ("paren", Bash.paren),
    ("math", Bash.math), ("backticks", Bash.backticks)]
  origin := .readyMade "bash"

end Lexer
end DocHighlighter
