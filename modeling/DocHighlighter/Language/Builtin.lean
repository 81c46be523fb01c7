/-
# Built-in languages

The languages that every engine knows from the start, each on a ready-made
lexer.  CMake also has a set of keywords: the names of its commands.
-/

import DocHighlighter.Grammar.Basic

namespace DocHighlighter
namespace Language

/-- The commands of CMake. -/
def cmakeCommands : List String := [
  "add_compile_definitions", "add_compile_options", "add_custom_command",
  "add_custom_target", "add_definitions", "add_dependencies", "add_executable",
  "add_library", "add_link_options", "add_subdirectory", "add_test",
  "aux_source_directory", "block", "break", "build_command", "cmake_host_system_information",
  "cmake_language", "cmake_minimum_required", "cmake_parse_arguments", "cmake_path",
  "cmake_policy", "configure_file", "continue", "create_test_sourcelist", "define_property",
  "else", "elseif", "enable_language", "enable_testing", "endblock", "endforeach",
  "endfunction", "endif", "endmacro", "endwhile", "execute_process", "export", "file",
  "find_file", "find_library", "find_package", "find_path", "find_program", "foreach",
  "function", "get_cmake_property", "get_directory_property", "get_filename_component",
  "get_property", "get_source_file_property", "get_target_property", "get_test_property", "if",
  "include", "include_directories", "include_guard", "install", "link_directories",
  "link_libraries", "list", "load_cache", "macro", "mark_as_advanced", "math", "message",
  "option", "project", "return", "separate_arguments", "set", "set_directory_properties",
  "set_property", "set_source_files_properties", "set_target_properties",
  "set_tests_properties", "site_name", "source_group", "string", "target_compile_definitions",
  "target_compile_features", "target_compile_options", "target_include_directories",
  "target_link_directories", "target_link_libraries", "target_link_options",
  "target_precompile_headers", "target_sources", "try_compile", "try_run", "unset",
  "variable_watch", "while"]

/-- The grammar of a built-in language. -/
def ofReadyMade : ReadyMade → Grammar
  | .cmake => {
      name := "cmake", displayName := "CMake", aliases := ["cmake.in"], caseInsensitive := true
      keywords := Grammar.wordSet cmakeCommands, lexer := some .cmake }
  | .json => { name := "json", displayName := "JSON", lexer := some .json }
  | .c => { name := "c", displayName := "C", aliases := ["h"], lexer := some .c }
  | .cpp => {
      name := "cpp", displayName := "C++", aliases := ["c++", "cc", "hpp"], lexer := some .cpp }
  | .javascript => {
      name := "javascript", displayName := "JavaScript", aliases := ["js", "mjs"]
      lexer := some .javascript }
  | .bash => { name := "bash", displayName := "Bash", aliases := ["sh", "shell"]
               lexer := some .bash }

/-- The built-in languages, in the order of their registration. -/
def builtins : List (String × Grammar) :=
  [.cmake, .json, .c, .cpp, .javascript, .bash].map fun r =>
    ((ofReadyMade r).name, ofReadyMade r)

end Language
end DocHighlighter
