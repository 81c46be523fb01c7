/-
# C++
-/

import DocHighlighter.Lexer.CFamily

namespace DocHighlighter
namespace Lexer

open Scanner

namespace Cpp

/-- The opening of an annotation in double brackets. -/
def annotationStart : Rule :=
  onGroups (r"(\[\[)(=)(" ++ CFamily.ident ++ r")")
    [.token .punctuation, .token .punctuation, .token .nameDecorator] [.enter "annotation"]

/-- What C++ puts before the shared rules of its family. -/
def additions : CFamily.Additions where
  statements := [
    onGroups (r#"((?:[LuU]|u8)?R)(")([^\\()\s]{0,16})(\()([\s\S]*?)(\)\3)(")"#)
      [.token .stringAffix, .token .string, .token .stringDelimiter, .token .stringDelimiter,
        .token .string, .token .stringDelimiter, .token .string],
    annotationStart,
    CFamily.attributeStart]
  keywords := [
    onGroups r"(class|concept|typename)(\s+)" [.token .keyword, .token .whitespace]
      [.enter "classname"],
    onWords "" ["catch", "const_cast", "delete", "dynamic_cast", "explicit",
      "export", "friend", "mutable", "new", "operator",
      "private", "protected", "public", "reinterpret_cast", "class",
      "__restrict", "static_cast", "template", "this", "throw", "throws",
      "try", "typeid", "using", "virtual", "concept",
      "decltype", "noexcept", "override", "final", "constinit", "consteval",
      "co_await", "co_return", "co_yield", "requires", "import", "module",
      "typename", "and", "and_eq", "bitand", "bitor", "compl", "not",
      "not_eq", "or", "or_eq", "xor", "xor_eq", "contract_assert", "pre", "post"] .keyword,
    on r"namespace\b" .keyword [.enter "namespace"],
    onGroups r"(enum)(\s+)" [.token .keyword, .token .whitespace] [.enter "enumname"]]
  types := [on r"char(16_t|32_t|8_t)\b" .keywordType]
  attributes := [on r"using\b" .keyword, on r":" .punctuation]

def root : List Rule := CFamily.root additions ++ [
  onWords "__" ["virtual_inheritance", "uuidof", "super", "extends", "single_inheritance",
    "multiple_inheritance", "interface", "implements", "event", "finally", "null"]
    .keywordReserved,
  on r"__(offload|blockingoffload|outer)\b" .keywordPseudo]

def className : List Rule :=
  CFamily.whitespace ++ [annotationStart, CFamily.attributeStart] ++ CFamily.className

def enumName : List Rule :=
  CFamily.whitespace ++ [onWords "" ["class", "struct"] .keyword, annotationStart,
    CFamily.attributeStart] ++ CFamily.className

def namespaceName : List Rule := [
  on r";" .punctuation [.pop, .enter "root"],
  on r"\{" .punctuation [.pop, .enter "namespace-body"],
  on r"inline\b" .keywordReserved,
  on CFamily.ident .nameNamespace] ++ CFamily.statement additions

def namespaceBody : List Rule :=
  on r"\}" .punctuation [.pop] :: root

def annotation : List Rule := [
  on r"\]\]" .punctuation [.pop],
  on r"\(" .punctuation [.enter "annotation-args"],
  on r"::" .punctuation,
  on r"," .punctuation,
  on CFamily.ident .nameDecorator] ++ CFamily.whitespace

/-- The states that C++ has besides the shared ones or in their place. -/
def table : Table := CFamily.table additions [
  ("root", root), ("classname", className), ("enumname", enumName),
  ("namespace", namespaceName), ("namespace-body", namespaceBody),
  ("annotation", annotation), ("annotation-args", CFamily.arguments additions)]

end Cpp

/-- The lexer of C++ programs. -/
def cpp : Lexer where
  typeName := "CppLexer"
  parentName := "CFamilyLexer"
  name := "C++"
  aliases := ["cpp", "c++"]
  filenames := ["*.cpp", "*.hpp", "*.c++", "*.h++", "*.cc", "*.hh", "*.cxx", "*.hxx",
    "*.C", "*.H", "*.cp", "*.CPP", "*.tpp", "*.cppm", "*.ixx", "*.mxx", "*.ipp"]
  body := .table { multiLine := true } Cpp.table
  retag := CFamily.retag
  origin := .readyMade "cpp"

end Lexer
end DocHighlighter
