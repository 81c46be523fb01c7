/-
# Styles and their stylesheets

A style is known by its name.  Its stylesheet has fixed rules, which hold on any
page; a rule for the highlighted block itself; and a rule for each class of
spans below the selector of the block (`Style.stylesheet`).  With an empty
selector there is no block, and the rules hold everywhere.
-/

namespace DocHighlighter
namespace Style

/-- The names of the styles. -/
def names : List String := [
  "abap", "algol", "algol_nu", "arduino", "autumn", "borland", "bw", "coffee", "colorful",
  "default", "dracula", "emacs", "friendly", "friendly_grayscale", "fruity", "github-dark",
  "gruvbox-dark", "gruvbox-light", "igor", "inkpot", "lightbulb", "lilypond", "lovelace", "manni",
  "material", "monokai", "murphy", "native", "night-owl", "nord", "nord-darker", "one-dark",
  "paraiso-dark", "paraiso-light", "pastie", "perldoc", "rainbow_dash", "rrt", "sas",
  "solarized-dark", "solarized-light", "staroffice", "stata-dark", "stata-light", "tango", "trac",
  "vim", "vs", "xcode", "zenburn"]

/-- Whether a style has the given name. -/
def isKnown (style : String) : Bool :=
  names.contains style

/-- The colours and fonts of a style. -/
structure Sheet where
  /-- The background of a marked line. -/
  marked : String
  /-- The declarations for the highlighted block. -/
  block : String
  /-- The class of a span, its declarations, and the name of its kind. -/
  spans : List (String × String × String)

/-- The rules that hold on any page. -/
def pageRules : List String := [
  r"pre { line-height: 125%; }",
  r"td.linenos .normal { color: inherit; background-color: transparent; pa" ++
    r"dding-left: 5px; padding-right: 5px; }",
  r"span.linenos { color: inherit; background-color: transparent; padding-" ++
    r"left: 5px; padding-right: 5px; }",
  r"td.linenos .special { color: #000000; background-color: #ffffc0; paddi" ++
    r"ng-left: 5px; padding-right: 5px; }",
  r"span.linenos.special { color: #000000; background-color: #ffffc0; padd" ++
    r"ing-left: 5px; padding-right: 5px; }"]

/-- The style `default`. -/
def standard : Sheet where
  marked := "#ffffcc"
  block := "background: #f8f8f8;"
  spans := [
    ("c", "color: #3D7B7B; font-style: italic", "Comment"),
    ("err", "border: 1px solid #F00", "Error"),
    ("k", "color: #008000; font-weight: bold", "Keyword"),
    ("o", "color: #666", "Operator"),
    ("ch", "color: #3D7B7B; font-style: italic", "Comment.Hashbang"),
    ("cm", "color: #3D7B7B; font-style: italic", "Comment.Multiline"),
    ("cp", "color: #9C6500", "Comment.Preproc"),
    ("cpf", "color: #3D7B7B; font-style: italic", "Comment.PreprocFile"),
    ("c1", "color: #3D7B7B; font-style: italic", "Comment.Single"),
    ("cs", "color: #3D7B7B; font-style: italic", "Comment.Special"),
    ("gd", "color: #A00000", "Generic.Deleted"),
    ("ge", "font-style: italic", "Generic.Emph"),
    ("ges", "font-weight: bold; font-style: italic", "Generic.EmphStrong"),
    ("gr", "color: #E40000", "Generic.Error"),
    ("gh", "color: #000080; font-weight: bold", "Generic.Heading"),
    ("gi", "color: #008400", "Generic.Inserted"),
    ("go", "color: #717171", "Generic.Output"),
    ("gp", "color: #000080; font-weight: bold", "Generic.Prompt"),
    ("gs", "font-weight: bold", "Generic.Strong"),
    ("gu", "color: #800080; font-weight: bold", "Generic.Subheading"),
    ("gt", "color: #04D", "Generic.Traceback"),
    ("kc", "color: #008000; font-weight: bold", "Keyword.Constant"),
    ("kd", "color: #008000; font-weight: bold", "Keyword.Declaration"),
    ("kn", "color: #008000; font-weight: bold", "Keyword.Namespace"),
    ("kp", "color: #008000", "Keyword.Pseudo"),
    ("kr", "color: #008000; font-weight: bold", "Keyword.Reserved"),
    ("kt", "color: #B00040", "Keyword.Type"),
    ("m", "color: #666", "Literal.Number"),
    ("s", "color: #BA2121", "Literal.String"),
    ("na", "color: #687822", "Name.Attribute"),
    ("nb", "color: #008000", "Name.Builtin"),
    ("nc", "color: #00F; font-weight: bold", "Name.Class"),
    ("no", "color: #800", "Name.Constant"),
    ("nd", "color: #A2F", "Name.Decorator"),
    ("ni", "color: #717171; font-weight: bold", "Name.Entity"),
    ("ne", "color: #CB3F38; font-weight: bold", "Name.Exception"),
    ("nf", "color: #00F", "Name.Function"),
    ("nl", "color: #767600", "Name.Label"),
    ("nn", "color: #00F; font-weight: bold", "Name.Namespace"),
    ("nt", "color: #008000; font-weight: bold", "Name.Tag"),
    ("nv", "color: #19177C", "Name.Variable"),
    ("ow", "color: #A2F; font-weight: bold", "Operator.Word"),
    ("w", "color: #BBB", "Text.Whitespace"),
    ("mb", "color: #666", "Literal.Number.Bin"),
    ("mf", "color: #666", "Literal.Number.Float"),
    ("mh", "color: #666", "Literal.Number.Hex"),
    ("mi", "color: #666", "Literal.Number.Integer"),
    ("mo", "color: #666", "Literal.Number.Oct"),
    ("sa", "color: #BA2121", "Literal.String.Affix"),
    ("sb", "color: #BA2121", "Literal.String.Backtick"),
    ("sc", "color: #BA2121", "Literal.String.Char"),
    ("dl", "color: #BA2121", "Literal.String.Delimiter"),
    ("sd", "color: #BA2121; font-style: italic", "Literal.String.Doc"),
    ("s2", "color: #BA2121", "Literal.String.Double"),
    ("se", "color: #AA5D1F; font-weight: bold", "Literal.String.Escape"),
    ("sh", "color: #BA2121", "Literal.String.Heredoc"),
    ("si", "color: #A45A77; font-weight: bold", "Literal.String.Interpol"),
    ("sx", "color: #008000", "Literal.String.Other"),
    ("sr", "color: #A45A77", "Literal.String.Regex"),
    ("s1", "color: #BA2121", "Literal.String.Single"),
    ("ss", "color: #19177C", "Literal.String.Symbol"),
    ("bp", "color: #008000", "Name.Builtin.Pseudo"),
    ("fm", "color: #00F", "Name.Function.Magic"),
    ("vc", "color: #19177C", "Name.Variable.Class"),
    ("vg", "color: #19177C", "Name.Variable.Global"),
    ("vi", "color: #19177C", "Name.Variable.Instance"),
    ("vm", "color: #19177C", "Name.Variable.Magic"),
    ("il", "color: #666", "Literal.Number.Integer.Long")]

/-- The style `monokai`. -/
def monokai : Sheet where
  marked := "#49483e"
  block := "background: #272822; color: #F8F8F2"
  spans := [
    ("c", "color: #959077", "Comment"),
    ("err", "color: #ED007E; background-color: #1E0010", "Error"),
    ("esc", "color: #F8F8F2", "Escape"),
    ("g", "color: #F8F8F2", "Generic"),
    ("k", "color: #66D9EF", "Keyword"),
    ("l", "color: #AE81FF", "Literal"),
    ("n", "color: #F8F8F2", "Name"),
    ("o", "color: #FF4689", "Operator"),
    ("x", "color: #F8F8F2", "Other"),
    ("p", "color: #F8F8F2", "Punctuation"),
    ("ch", "color: #959077", "Comment.Hashbang"),
    ("cm", "color: #959077", "Comment.Multiline"),
    ("cp", "color: #959077", "Comment.Preproc"),
    ("cpf", "color: #959077", "Comment.PreprocFile"),
    ("c1", "color: #959077", "Comment.Single"),
    ("cs", "color: #959077", "Comment.Special"),
    ("gd", "color: #FF4689", "Generic.Deleted"),
    ("ge", "color: #F8F8F2; font-style: italic", "Generic.Emph"),
    ("ges", "color: #F8F8F2; font-weight: bold; font-style: italic", "Generic.EmphStrong"),
    ("gr", "color: #FF4689", "Generic.Error"),
    ("gh", "color: #F8F8F2", "Generic.Heading"),
    ("gi", "color: #A6E22E", "Generic.Inserted"),
    ("go", "color: #66D9EF", "Generic.Output"),
    ("gp", "color: #FF4689; font-weight: bold", "Generic.Prompt"),
    ("gs", "color: #F8F8F2; font-weight: bold", "Generic.Strong"),
    ("gu", "color: #959077", "Generic.Subheading"),
    ("gt", "color: #66D9EF", "Generic.Traceback"),
    ("kc", "color: #66D9EF", "Keyword.Constant"),
    ("kd", "color: #66D9EF", "Keyword.Declaration"),
    ("kn", "color: #FF4689", "Keyword.Namespace"),
    ("kp", "color: #66D9EF", "Keyword.Pseudo"),
    ("kr", "color: #66D9EF", "Keyword.Reserved"),
    ("kt", "color: #66D9EF", "Keyword.Type"),
    ("ld", "color: #E6DB74", "Literal.Date"),
    ("m", "color: #AE81FF", "Literal.Number"),
    ("s", "color: #E6DB74", "Literal.String"),
    ("na", "color: #A6E22E", "Name.Attribute"),
    ("nb", "color: #A6E22E", "Name.Builtin"),
    ("nc", "color: #A6E22E", "Name.Class"),
    ("no", "color: #66D9EF", "Name.Constant"),
    ("nd", "color: #A6E22E", "Name.Decorator"),
    ("ni", "color: #F8F8F2", "Name.Entity"),
    ("ne", "color: #A6E22E", "Name.Exception"),
    ("nf", "color: #A6E22E", "Name.Function"),
    ("nl", "color: #F8F8F2", "Name.Label"),
    ("nn", "color: #F8F8F2", "Name.Namespace"),
    ("nx", "color: #A6E22E", "Name.Other"),
    ("py", "color: #F8F8F2", "Name.Property"),
    ("nt", "color: #FF4689", "Name.Tag"),
    ("nv", "color: #F8F8F2", "Name.Variable"),
    ("ow", "color: #FF4689", "Operator.Word"),
    ("pm", "color: #F8F8F2", "Punctuation.Marker"),
    ("w", "color: #F8F8F2", "Text.Whitespace"),
    ("mb", "color: #AE81FF", "Literal.Number.Bin"),
    ("mf", "color: #AE81FF", "Literal.Number.Float"),
    ("mh", "color: #AE81FF", "Literal.Number.Hex"),
    ("mi", "color: #AE81FF", "Literal.Number.Integer"),
    ("mo", "color: #AE81FF", "Literal.Number.Oct"),
    ("sa", "color: #E6DB74", "Literal.String.Affix"),
    ("sb", "color: #E6DB74", "Literal.String.Backtick"),
    ("sc", "color: #E6DB74", "Literal.String.Char"),
    ("dl", "color: #E6DB74", "Literal.String.Delimiter"),
    ("sd", "color: #E6DB74", "Literal.String.Doc"),
    ("s2", "color: #E6DB74", "Literal.String.Double"),
    ("se", "color: #AE81FF", "Literal.String.Escape"),
    ("sh", "color: #E6DB74", "Literal.String.Heredoc"),
    ("si", "color: #E6DB74", "Literal.String.Interpol"),
    ("sx", "color: #E6DB74", "Literal.String.Other"),
    ("sr", "color: #E6DB74", "Literal.String.Regex"),
    ("s1", "color: #E6DB74", "Literal.String.Single"),
    ("ss", "color: #E6DB74", "Literal.String.Symbol"),
    ("bp", "color: #A6E22E", "Name.Builtin.Pseudo"),
    ("fm", "color: #A6E22E", "Name.Function.Magic"),
    ("vc", "color: #F8F8F2", "Name.Variable.Class"),
    ("vg", "color: #F8F8F2", "Name.Variable.Global"),
    ("vi", "color: #F8F8F2", "Name.Variable.Instance"),
    ("vm", "color: #F8F8F2", "Name.Variable.Magic"),
    ("il", "color: #AE81FF", "Literal.Number.Integer.Long")]

/-- The style `bw`. -/
def blackAndWhite : Sheet where
  marked := "#ffffcc"
  block := "background: #ffffff;"
  spans := [
    ("c", "font-style: italic", "Comment"),
    ("err", "border: 1px solid #F00", "Error"),
    ("k", "font-weight: bold", "Keyword"),
    ("ch", "font-style: italic", "Comment.Hashbang"),
    ("cm", "font-style: italic", "Comment.Multiline"),
    ("cpf", "font-style: italic", "Comment.PreprocFile"),
    ("c1", "font-style: italic", "Comment.Single"),
    ("cs", "font-style: italic", "Comment.Special"),
    ("ge", "font-style: italic", "Generic.Emph"),
    ("ges", "font-weight: bold; font-style: italic", "Generic.EmphStrong"),
    ("gh", "font-weight: bold", "Generic.Heading"),
    ("gp", "font-weight: bold", "Generic.Prompt"),
    ("gs", "font-weight: bold", "Generic.Strong"),
    ("gu", "font-weight: bold", "Generic.Subheading"),
    ("kc", "font-weight: bold", "Keyword.Constant"),
    ("kd", "font-weight: bold", "Keyword.Declaration"),
    ("kn", "font-weight: bold", "Keyword.Namespace"),
    ("kr", "font-weight: bold", "Keyword.Reserved"),
    ("s", "font-style: italic", "Literal.String"),
    ("nc", "font-weight: bold", "Name.Class"),
    ("ni", "font-weight: bold", "Name.Entity"),
    ("ne", "font-weight: bold", "Name.Exception"),
    ("nn", "font-weight: bold", "Name.Namespace"),
    ("nt", "font-weight: bold", "Name.Tag"),
    ("ow", "font-weight: bold", "Operator.Word"),
    ("sa", "font-style: italic", "Literal.String.Affix"),
    ("sb", "font-style: italic", "Literal.String.Backtick"),
    ("sc", "font-style: italic", "Literal.String.Char"),
    ("dl", "font-style: italic", "Literal.String.Delimiter"),
    ("sd", "font-style: italic", "Literal.String.Doc"),
    ("s2", "font-style: italic", "Literal.String.Double"),
    ("se", "font-weight: bold; font-style: italic", "Literal.String.Escape"),
    ("sh", "font-style: italic", "Literal.String.Heredoc"),
    ("si", "font-weight: bold; font-style: italic", "Literal.String.Interpol"),
    ("sx", "font-style: italic", "Literal.String.Other"),
    ("sr", "font-style: italic", "Literal.String.Regex"),
    ("s1", "font-style: italic", "Literal.String.Single"),
    ("ss", "font-style: italic", "Literal.String.Symbol")]

/-- The sheet of a style, for the styles that have one here. -/
def sheet? : String → Option Sheet
  | "default" => some standard
  | "monokai" => some monokai
  | "bw" => some blackAndWhite
  | _ => none

/-- A rule for what a selector matches. -/
def rule (selector declarations : String) : String :=
  selector ++ " \x7b " ++ declarations ++ " \x7d"

/-- The rules of a sheet below a selector. -/
def Sheet.rules (s : Sheet) (selector : String) : List String :=
  let below (cls : String) : String :=
    if selector.isEmpty then "." ++ cls else selector ++ " ." ++ cls
  let block := if selector.isEmpty then [] else [rule selector s.block]
  rule (below "hll") ("background-color: " ++ s.marked) :: block ++
    s.spans.map fun (cls, declarations, kind) =>
      rule (below cls) declarations ++ " /* " ++ kind ++ " */"

/-- The stylesheet of a style below a selector. -/
def stylesheet (style selector : String) : String :=
  let rules := match sheet? style with
    | some s => s.rules selector
    | none => []
  "\n".intercalate (pageRules ++ rules)

end Style
end DocHighlighter
