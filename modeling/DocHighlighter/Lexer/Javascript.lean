/-
# JavaScript

Whether a slash begins a regular expression depends on what came before it, so
after an operator or an opening bracket the scan is for one token in a state of
its own.
-/

import DocHighlighter.Lexer.Basic

namespace DocHighlighter
namespace Lexer

open Scanner
open Pattern (Expr)

namespace Javascript

/-- An escape by code, such as may stand in an identifier. -/
def codeEscape : Expr :=
  .seq (.text ['\\', 'u']) (.turns 4 (some 4) .greedy
    (.oneOf false [.range 'a' 'f', .range 'A' 'F', .range '0' '9']))

/-- An identifier. -/
def identifier : Expr :=
  .seq
    (.alt (.oneOf false [.single '$', .category .nameStart false]) codeEscape)
    (.turns 0 none .greedy
      (.alt
        (.oneOf false [.single '$', .category .namePart false, .single '\u200c', .single '\u200d'])
        codeEscape))

def commentsAndBlanks : List Rule := [
  on r"\s+" .whitespace,
  on r"<!--" .comment,
  on r"//.*?$" .commentSingle,
  on r"/\*.*?\*/" .commentMultiline]

/-- Where a slash begins a regular expression. -/
def slashStartsRegex : List Rule := commentsAndBlanks ++ [
  on (r"/(\\.|[^[/\\\n]|\[(\\.|[^\]\\\n])*])+/" ++ r"([gimuysd]+\b|\B)") .stringRegex [.pop],
  on r"(?=/)" .text [.pop, .enter "badregex"],
  otherwise [.pop]]

def badRegex : List Rule := [
  on r"\n" .whitespace [.pop]]

def numbers : List Rule := [
  on r"0[bB][01]+n?" .numberBin,
  on r"0[oO]?[0-7]+n?" .numberOct,
  on r"0[xX][0-9a-fA-F]+n?" .numberHex,
  on r"[0-9]+n" .numberInteger,
  on r"(\.[0-9]+|[0-9]+\.[0-9]*|[0-9]+)([eE][-+]?[0-9]+)?" .numberFloat]

/-- After these a slash begins a regular expression. -/
def beforeSlash : List Move := [.enter "slashstartsregex"]

def words : List Rule := [
  on r"(typeof|instanceof|in|void|delete|new)\b" .operatorWord beforeSlash,
  on r"\b(constructor|from|as)\b" .keywordReserved,
  on (r"(for|in|while|do|break|return|continue|switch|case|default|if|else|" ++
    r"throw|try|catch|finally|yield|await|async|this|of|static|export|" ++
    r"import|debugger|extends|super)\b") .keyword beforeSlash,
  on r"(var|let|const|with|function|class)\b" .keywordDeclaration beforeSlash,
  on (r"(abstract|boolean|byte|char|double|enum|final|float|goto|" ++
    r"implements|int|interface|long|native|package|private|protected|" ++
    r"public|short|synchronized|throws|transient|volatile)\b") .keywordReserved,
  on r"(true|false|null|NaN|Infinity|undefined)\b" .keywordConstant,
  on (r"(Array|Boolean|Date|BigInt|Function|Math|ArrayBuffer|" ++
    r"Number|Object|RegExp|String|Promise|Proxy|decodeURI|" ++
    r"decodeURIComponent|encodeURI|encodeURIComponent|" ++
    r"eval|isFinite|isNaN|parseFloat|parseInt|DataView|" ++
    r"document|window|globalThis|global|arguments|Symbol|Intl|" ++
    r"WeakSet|WeakMap|Set|Map|Reflect|JSON|Atomics|" ++
    r"Int(?:8|16|32)Array|BigInt64Array|Float32Array|Float64Array|" ++
    r"Uint8ClampedArray|Uint(?:8|16|32)Array|BigUint64Array)\b") .nameBuiltin,
  on r"((?:Eval|Internal|Range|Reference|Syntax|Type|URI)?Error)\b" .nameException,
  onGroups r"(super)(\s*)(\([\w,?.$\s]+\s*\))" [.token .keyword, .token .whitespace] beforeSlash,
  on r"([a-zA-Z_?.$][\w?.$]*)(?=\(\) \{)" .nameOther beforeSlash]

def root : List Rule :=
  [on r"\A#! ?/.*?$" .commentHashbang,
    on r"^(?=\s|/|<!--)" .text beforeSlash] ++
  commentsAndBlanks ++ numbers ++
  [on r"\.\.\.|=>" .punctuation,
    on (r"\+\+|--|~|\?\?=?|\?|:|\\(?=\n)|" ++
      r"(<<|>>>?|==?|!=?|(?:\*\*|\|\||&&|[-<>+*%&|^/]))=?") .operator beforeSlash,
    on r"[{(\[;,]" .punctuation beforeSlash,
    on r"[})\].]" .punctuation] ++
  words ++
  [⟨.built identifier, .token .nameOther, []⟩,
    on r#""(\\\\|\\[^\\]|[^"\\])*""# .stringDouble,
    on r"'(\\\\|\\[^\\]|[^'\\])*'" .stringSingle,
    on r"`" .stringBacktick [.enter "interp"],
    on r"#[a-zA-Z_]\w*" .name]

def template : List Rule := [
  on r"`" .stringBacktick [.pop],
  on r"\\." .stringBacktick,
  on r"\$\{" .stringInterpol [.enter "interp-inside"],
  on r"\$" .stringBacktick,
  on r"[^`\\$]+" .stringBacktick]

def templateInside : List Rule :=
  on r"\}" .stringInterpol [.pop] :: root

end Javascript

/-- The lexer of JavaScript programs. -/
def javascript : Lexer where
  typeName := "JavascriptLexer"
  parentName := "RegexLexer"
  name := "JavaScript"
  aliases := ["javascript", "js"]
  filenames := ["*.js", "*.jsm", "*.mjs", "*.cjs"]
  body := .table { multiLine := true, dotAll := true } [
    ("slashstartsregex", Javascript.slashStartsRegex), ("badregex", Javascript.badRegex),
    ("root", Javascript.root), ("interp", Javascript.template),
    ("interp-inside", Javascript.templateInside)]
  origin := .readyMade "javascript"

end Lexer
end DocHighlighter
