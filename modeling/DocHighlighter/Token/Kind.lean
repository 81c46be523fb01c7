/-
# Kinds of tokens

The kinds form a tree: a string delimiter is a string, and a string is a
literal.  `Kind.path` gives the way from the root of the tree, and
`Kind.isWithin` asks whether one kind lies below another or is the same.

`Kind.cssClass` is the class that a token's span carries.  Plain text has none;
a kind without a class of its own takes that of the kind above it and a second
one formed from its own name.
-/

namespace DocHighlighter

/-- What a token is. -/
inductive Kind where
  | text
  | whitespace
  | error
  | keyword
  | keywordConstant
  | keywordDeclaration
  | keywordPseudo
  | keywordReserved
  | keywordType
  | name
  | nameAttribute
  | nameBuiltin
  | nameClass
  | nameConstant
  | nameDecorator
  | nameException
  | nameFunction
  | nameLabel
  | nameNamespace
  | nameOther
  | nameTag
  | nameVariable
  | string
  | stringAffix
  | stringBacktick
  | stringChar
  | stringDelimiter
  | stringDoc
  | stringDouble
  | stringEscape
  | stringInterpol
  | stringMultiline
  | stringRegex
  | stringSingle
  | number
  | numberBin
  | numberFloat
  | numberHex
  | numberInteger
  | numberOct
  | operator
  | operatorWord
  | punctuation
  | comment
  | commentHashbang
  | commentMultiline
  | commentPreproc
  | commentPreprocFile
  | commentSingle
  deriving DecidableEq

namespace Kind

/-- The names on the way from the root of the tree of kinds. -/
def path : Kind → List String
  | text => ["Text"]
  | whitespace => ["Text", "Whitespace"]
  | error => ["Error"]
  | keyword => ["Keyword"]
  | keywordConstant => ["Keyword", "Constant"]
  | keywordDeclaration => ["Keyword", "Declaration"]
  | keywordPseudo => ["Keyword", "Pseudo"]
  | keywordReserved => ["Keyword", "Reserved"]
  | keywordType => ["Keyword", "Type"]
  | name => ["Name"]
  | nameAttribute => ["Name", "Attribute"]
  | nameBuiltin => ["Name", "Builtin"]
  | nameClass => ["Name", "Class"]
  | nameConstant => ["Name", "Constant"]
  | nameDecorator => ["Name", "Decorator"]
  | nameException => ["Name", "Exception"]
  | nameFunction => ["Name", "Function"]
  | nameLabel => ["Name", "Label"]
  | nameNamespace => ["Name", "Namespace"]
  | nameOther => ["Name", "Other"]
  | nameTag => ["Name", "Tag"]
  | nameVariable => ["Name", "Variable"]
  | string => ["Literal", "String"]
  | stringAffix => ["Literal", "String", "Affix"]
  | stringBacktick => ["Literal", "String", "Backtick"]
  | stringChar => ["Literal", "String", "Char"]
  | stringDelimiter => ["Literal", "String", "Delimiter"]
  | stringDoc => ["Literal", "String", "Doc"]
  | stringDouble => ["Literal", "String", "Double"]
  | stringEscape => ["Literal", "String", "Escape"]
  | stringInterpol => ["Literal", "String", "Interpol"]
  | stringMultiline => ["Literal", "String", "Multiline"]
  | stringRegex => ["Literal", "String", "Regex"]
  | stringSingle => ["Literal", "String", "Single"]
  | number => ["Literal", "Number"]
  | numberBin => ["Literal", "Number", "Bin"]
  | numberFloat => ["Literal", "Number", "Float"]
  | numberHex => ["Literal", "Number", "Hex"]
  | numberInteger => ["Literal", "Number", "Integer"]
  | numberOct => ["Literal", "Number", "Oct"]
  | operator => ["Operator"]
  | operatorWord => ["Operator", "Word"]
  | punctuation => ["Punctuation"]
  | comment => ["Comment"]
  | commentHashbang => ["Comment", "Hashbang"]
  | commentMultiline => ["Comment", "Multiline"]
  | commentPreproc => ["Comment", "Preproc"]
  | commentPreprocFile => ["Comment", "PreprocFile"]
  | commentSingle => ["Comment", "Single"]

/-- The name of a kind: its path, joined by dots. -/
def fullName (k : Kind) : String :=
  ".".intercalate k.path

/-- Whether a kind is the other one or lies below it. -/
def isWithin (k above : Kind) : Bool :=
  above.path.isPrefixOf k.path

/-- The class of a token's span, empty for plain text. -/
def cssClass : Kind → String
  | text => ""
  | whitespace => "w"
  | error => "err"
  | keyword => "k"
  | keywordConstant => "kc"
  | keywordDeclaration => "kd"
  | keywordPseudo => "kp"
  | keywordReserved => "kr"
  | keywordType => "kt"
  | name => "n"
  | nameAttribute => "na"
  | nameBuiltin => "nb"
  | nameClass => "nc"
  | nameConstant => "no"
  | nameDecorator => "nd"
  | nameException => "ne"
  | nameFunction => "nf"
  | nameLabel => "nl"
  | nameNamespace => "nn"
  | nameOther => "nx"
  | nameTag => "nt"
  | nameVariable => "nv"
  | string => "s"
  | stringAffix => "sa"
  | stringBacktick => "sb"
  | stringChar => "sc"
  | stringDelimiter => "dl"
  | stringDoc => "sd"
  | stringDouble => "s2"
  | stringEscape => "se"
  | stringInterpol => "si"
  | stringMultiline => "s s-Multiline"
  | stringRegex => "sr"
  | stringSingle => "s1"
  | number => "m"
  | numberBin => "mb"
  | numberFloat => "mf"
  | numberHex => "mh"
  | numberInteger => "mi"
  | numberOct => "mo"
  | operator => "o"
  | operatorWord => "ow"
  | punctuation => "p"
  | comment => "c"
  | commentHashbang => "ch"
  | commentMultiline => "cm"
  | commentPreproc => "cp"
  | commentPreprocFile => "cpf"
  | commentSingle => "c1"

end Kind
end DocHighlighter
