/-
# Languages of the C family

The states that the languages share.  A language gives the rules that it has
before the shared ones in some states (`Additions`) and its own states; the
shared states include the additions wherever they include one another.

After the scan, names of types of the standard libraries become types
(`retag`).  C itself adds little (`c`).
-/

import DocHighlighter.Lexer.Basic

namespace DocHighlighter
namespace Lexer
namespace CFamily

open Scanner

/-- Blanks with at most one comment among them. -/
def blanks : String := r"\s*(?:/[*].*?[*]/\s*)?"

/-- The digits of a hexadecimal literal, with separators. -/
def hexPart : String := r"[0-9a-fA-F](\'?[0-9a-fA-F])*"

/-- The digits of a decimal literal, with separators. -/
def decPart : String := r"\d(\'?\d)*"

/-- What may follow the digits of an integer literal. -/
def intSuffix : String := r"(([uU]?[zZ])|([zZ][uU])|([uU][lL]{0,2})|([lL]{1,2}[uU]?))?"

/-- An identifier, which may hold characters by their codes. -/
def ident : String := r"(?!\d)(?:[\w$]|\\u[0-9a-fA-F]{4}|\\U[0-9a-fA-F]{8})+"

/-- An identifier with the namespaces it lies in. -/
def qualifiedIdent : String := r"(?!\d)(?:[\w$]|\\u[0-9a-fA-F]{4}|\\U[0-9a-fA-F]{8}|::)+"

def lineComment : String := r"//(?:.|(?<=\\)\n)*\n"

def blockComment : String := r"/(?:\\\n)?[*](?:[^*]|[*](?!(?:\\\n)?/))*[*](?:\\\n)?/"

/-- Blanks and comments in any number. -/
def possibleComments : String :=
  r"\s*(?:(?:(?:" ++ lineComment ++ r")|(?:" ++ blockComment ++ r"))\s*)*"

/-- The beginning of a function definition or declaration, up to its parameters. -/
def signature : String :=
  r"(" ++ qualifiedIdent ++ r"(?:[&*\s])+)" ++ r"(" ++ possibleComments ++ r")" ++
  r"(" ++ qualifiedIdent ++ r")" ++ r"(" ++ possibleComments ++ r")" ++
  r#"(\([^;"\')]*?\))"# ++ r"(" ++ possibleComments ++ r")"

/-- What the groups of a function's beginning give. -/
def signatureParts : List Part :=
  [.nested none, .nested (some "whitespace"), .token .nameFunction, .nested (some "whitespace"),
    .nested none, .nested (some "whitespace"), .nested none, .token .punctuation]

/-- The rules that a language puts before the shared ones of a state. -/
structure Additions where
  statements : List Rule := []
  keywords : List Rule := []
  types : List Rule := []
  attributes : List Rule := []

/-- Blanks, comments, labels and the beginnings of directives. -/
def whitespace : List Rule := [
  on r"^#if\s+0" .commentPreproc [.enter "if0"],
  on r"^#" .commentPreproc [.enter "macro"],
  onGroups (r"^(" ++ blanks ++ r")(#if\s+0)") [.nested none, .token .commentPreproc]
    [.enter "if0"],
  onGroups (r"^(" ++ blanks ++ r")(#)") [.nested none, .token .commentPreproc] [.enter "macro"],
  onGroups (r"(^[ \t]*)" ++ r"(?!(?:public|private|protected|default)\b)" ++
    r"(" ++ ident ++ r")(\s*)(:)(?!:)")
    [.token .whitespace, .token .nameLabel, .token .whitespace, .token .punctuation],
  on r"\n" .whitespace,
  on r"[^\S\n]+" .whitespace,
  on r"\\\n" .text,
  on lineComment .commentSingle,
  on blockComment .commentMultiline,
  on r"/(\\\n)?[*][\w\W]*" .commentMultiline]

def keywords (x : Additions) : List Rule := x.keywords ++ [
  onGroups r"(struct|union)(\s+)" [.token .keyword, .token .whitespace] [.enter "classname"],
  on r"case\b" .keyword [.enter "case-value"],
  onWords "" ["asm", "auto", "break", "const", "constexpr", "continue", "countof", "default",
    "defer", "do", "else", "enum", "extern", "for", "goto", "if", "register", "restricted",
    "return", "sizeof", "struct", "static", "switch", "typedef", "typeof", "typeof_unqual",
    "volatile", "while", "union", "thread_local", "alignas", "alignof", "static_assert",
    "_Pragma", "fortran"] .keyword,
  onWords "" ["inline", "_inline", "__inline", "naked", "restrict", "thread"] .keywordReserved,
  on r"(__m(128i|128d|128|64))\b" .keywordReserved,
  onWords "__" ["asm", "based", "except", "stdcall", "cdecl", "fastcall", "declspec", "finally",
    "try", "leave", "w64", "unaligned", "raise", "noop", "identifier", "forceinline", "assume",
    "null"] .keywordReserved]

def types (x : Additions) : List Rule := x.types ++ [
  onWords "__" ["int8", "int16", "int32", "int64", "wchar_t"] .keywordReserved,
  onWords "" ["bool", "int", "long", "float", "short", "double", "char", "unsigned", "signed",
    "void", "_BitInt", "__int128"] .keywordType]

def numbers : List Rule := [
  on (r"0[xX](" ++ hexPart ++ r"\." ++ hexPart ++ r"|\." ++ hexPart ++
    r"|" ++ hexPart ++ r")[pP][+-]?" ++ hexPart ++ r"[lL]?") .numberFloat,
  on (r"(-)?(" ++ decPart ++ r"\." ++ decPart ++ r"|\." ++ decPart ++ r"|" ++
    decPart ++ r")[eE][+-]?" ++ decPart ++ r"[fFlL]?") .numberFloat,
  on (r"(-)?((" ++ decPart ++ r"\.(" ++ decPart ++ r")?|\." ++
    decPart ++ r")[fFlL]?)|(" ++ decPart ++ r"[fFlL])") .numberFloat,
  on (r"(-)?0[xX]" ++ hexPart ++ intSuffix) .numberHex,
  on (r"(-)?0[bB][01](\'?[01])*" ++ intSuffix) .numberBin,
  on (r"(-)?0(\'?[0-7])+" ++ intSuffix) .numberOct,
  on (r"(-)?" ++ decPart ++ intSuffix) .numberInteger]

def statements (x : Additions) : List Rule :=
  x.statements ++ keywords x ++ types x ++
  [onGroups r#"([LuU]|u8)?(")"# [.token .stringAffix, .token .string] [.enter "string"],
    onGroups r"([LuU]|u8)?(')(\\.|\\[0-7]{1,3}|\\x[a-fA-F0-9]{1,2}|[^\\\'\n])(')"
      [.token .stringAffix, .token .stringChar, .token .stringChar, .token .stringChar]] ++
  numbers ++
  [on r"[~!%^&*+=|?:<>/-]" .operator,
    on r"[()\[\],.]" .punctuation,
    on r"(true|false|NULL|nullptr)\b" .nameBuiltin,
    on ident .name]

def root (x : Additions) : List Rule :=
  whitespace ++ keywords x ++
  [onGroups (signature ++ r#"([^;{/"\']*)(\{)"#) signatureParts [.enter "function"],
    onGroups (signature ++ r#"([^;/"\']*)(;)"#) signatureParts] ++
  types x ++ [otherwise [.enter "statement"]]

def statement (x : Additions) : List Rule :=
  whitespace ++ statements x ++
  [on r"\}" .punctuation, on r"[{;]" .punctuation [.pop]]

def function (x : Additions) : List Rule :=
  whitespace ++ statements x ++
  [on r";" .punctuation, on r"\{" .punctuation [.again], on r"\}" .punctuation [.pop]]

def string : List Rule := [
  on r#"""# .string [.pop],
  on (r#"\\([\\abfnrtv"\']|x[a-fA-F0-9]{2,4}|"# ++
    r"u[a-fA-F0-9]{4}|U[a-fA-F0-9]{8}|[0-7]{1,3})") .stringEscape,
  on r#"[^\\"\n]+"# .string,
  on r"\\\n" .string,
  on r"\\" .string]

/-- The beginning of an include directive, up to the file. -/
def includeStart : String :=
  r"(" ++ blanks ++ r")(include)(" ++ blanks ++ r#")("[^"]+"|<[^>]+>)([^\S\n]*)"#

/-- What the groups of an include directive give, before the comment after it. -/
def includeParts : List Part :=
  [.nested none, .token .commentPreproc, .nested none, .token .commentPreprocFile, .nested none]

def directive : List Rule := [
  onGroups (includeStart ++ r"([^/\n]*/[*][\s\S]*?[*]/)")
    (includeParts ++ [.token .commentMultiline]),
  onGroups (includeStart ++ r"([^\n]*)") (includeParts ++ [.token .commentSingle]),
  on r"[^/\n]+" .commentPreproc,
  on r"/[*][\s\S]*?[*]/" .commentMultiline,
  on r"//.*?\n" .commentSingle [.pop],
  on r"/" .commentPreproc,
  on r"(?<=\\)\n" .commentPreproc,
  on r"\n" .commentPreproc [.pop]]

/-- The lines of a branch that is never compiled. -/
def skipped : List Rule := [
  on r"^\s*#if.*?(?<!\\)\n" .commentPreproc [.again],
  on r"^\s*#el(?:se|if).*\n" .commentPreproc [.pop],
  on r"^\s*#endif.*?(?<!\\)\n" .commentPreproc [.pop],
  on r".*?\n" .comment]

/-- The opening of attributes in double brackets. -/
def attributeStart : Rule :=
  on r"\[\[(?=[^\[\]]*\]\])" .punctuation [.enter "attribute"]

/-- The name after a word such as `struct`, and what may stand before it. -/
def className : List Rule := [
  on ident .nameClass [.pop],
  on r"\s*(?=>)" .text [.pop],
  otherwise [.pop]]

def caseValue (x : Additions) : List Rule :=
  [on r"(?<!:)(:)(?!:)" .punctuation [.pop],
    on ident .nameConstant] ++ whitespace ++ statements x

def attributes (x : Additions) : List Rule := x.attributes ++ [
  on r"\]\]" .punctuation [.pop],
  on ident .nameAttribute,
  on r"\(" .punctuation [.enter "attribute-args"],
  on r"::" .punctuation,
  on r"," .punctuation] ++ whitespace

/-- The statements between the parentheses of an attribute or annotation. -/
def arguments (x : Additions) : List Rule :=
  [on r"\)" .punctuation [.pop],
    on r"\(" .punctuation [.again]] ++ statements x

/-- The shared states, with the additions of a language; a state of the language's own
that is given too takes the place of the shared one. -/
def table (x : Additions) (own : Table) : Table :=
  let shared : Table := [
    ("whitespace", whitespace), ("statements", statements x), ("types", types x),
    ("keywords", keywords x), ("root", root x), ("statement", statement x),
    ("function", function x), ("string", string), ("macro", directive), ("if0", skipped),
    ("classname", whitespace ++ [attributeStart] ++ className), ("case-value", caseValue x),
    ("attribute", attributes x), ("attribute-args", arguments x)]
  own ++ shared.filter fun s => !own.any (·.1 == s.1)

/-- Types of the standard library, of fixed width, for atomic access and of the platform. -/
def libraryTypes : List String := [
  "size_t", "ssize_t", "off_t", "wchar_t", "ptrdiff_t", "sig_atomic_t", "fpos_t",
  "clock_t", "time_t", "va_list", "jmp_buf", "FILE", "DIR", "div_t", "ldiv_t",
  "mbstate_t", "wctrans_t", "wint_t", "wctype_t", "byte",
  "int8_t", "int16_t", "int32_t", "int64_t", "uint8_t",
  "uint16_t", "uint32_t", "uint64_t", "int_least8_t", "int_least16_t",
  "int_least32_t", "int_least64_t", "uint_least8_t", "uint_least16_t",
  "uint_least32_t", "uint_least64_t", "int_fast8_t", "int_fast16_t", "int_fast32_t",
  "int_fast64_t", "uint_fast8_t", "uint_fast16_t", "uint_fast32_t", "uint_fast64_t",
  "intptr_t", "uintptr_t", "intmax_t", "uintmax_t",
  "clockid_t", "cpu_set_t", "cpumask_t", "dev_t", "gid_t", "id_t", "ino_t", "key_t",
  "mode_t", "nfds_t", "pid_t", "rlim_t", "sig_t", "sighandler_t", "siginfo_t",
  "sigset_t", "sigval_t", "socklen_t", "timer_t", "uid_t",
  "atomic_bool", "atomic_char", "atomic_schar", "atomic_uchar", "atomic_short",
  "atomic_ushort", "atomic_int", "atomic_uint", "atomic_long", "atomic_ulong",
  "atomic_llong", "atomic_ullong", "atomic_char16_t", "atomic_char32_t", "atomic_wchar_t",
  "atomic_int_least8_t", "atomic_uint_least8_t", "atomic_int_least16_t",
  "atomic_uint_least16_t", "atomic_int_least32_t", "atomic_uint_least32_t",
  "atomic_int_least64_t", "atomic_uint_least64_t", "atomic_int_fast8_t",
  "atomic_uint_fast8_t", "atomic_int_fast16_t", "atomic_uint_fast16_t",
  "atomic_int_fast32_t", "atomic_uint_fast32_t", "atomic_int_fast64_t",
  "atomic_uint_fast64_t", "atomic_intptr_t", "atomic_uintptr_t", "atomic_size_t",
  "atomic_ptrdiff_t", "atomic_intmax_t", "atomic_uintmax_t"]

/-- The kind of a token once names of library types are known to be types. -/
def retag (t : Token) : Kind :=
  if t.kind = .name && libraryTypes.contains t.text then .keywordType else t.kind

end CFamily

/-! ## C -/

open Scanner

/-- What C puts before the shared rules of its family. -/
def cAdditions : CFamily.Additions where
  statements := [CFamily.attributeStart]
  keywords := [onWords "" ["_Alignas", "_Alignof", "_Noreturn", "_Countof", "_Generic",
    "_Thread_local", "_Static_assert", "_Imaginary", "noreturn", "imaginary", "complex"] .keyword]
  types := [onWords "" ["_Bool", "_Complex", "_Atomic", "_Decimal32", "_Decimal64",
    "_Decimal128"] .keywordType]

/-- The lexer of C programs. -/
def c : Lexer where
  typeName := "CLexer"
  parentName := "CFamilyLexer"
  name := "C"
  aliases := ["c"]
  filenames := ["*.c", "*.h", "*.idc", "*.x[bp]m"]
  body := .table { multiLine := true } (CFamily.table cAdditions [])
  retag := CFamily.retag
  origin := .readyMade "c"

end Lexer
end DocHighlighter
