/-
# Lexers of grammars

The rules of a grammar become a scanner table.  Every rule with a closing
pattern has a state of its own: the openings of the inner rules in order, then
the closing, which leaves the state, then any one character, which takes the
kind of the rule.  So a span keeps its kind except where an inner rule claims
the text, and inner rules are active only inside the span.  A state is named by
its place in the tree of rules.

A grammar that builds on a ready-made lexer turns names that are among its
keywords into keywords; variables stay what they are.
-/

import DocHighlighter.Grammar.Basic
import DocHighlighter.Text.Case

namespace DocHighlighter

open Scanner

/-- A tag that has no kind. -/
structure UnknownTag where
  tag : String
  deriving DecidableEq

mutual

/-- The rule that opens a span, and the states that the span needs: those of the inner rules
before its own. -/
def SpanRule.compile (state : String) : SpanRule → Except UnknownTag (Scanner.Rule × Table)
  | ⟨tag, opening, closing, inner⟩ =>
    match SpanRule.kindOf? tag with
    | none => .error ⟨tag⟩
    | some kind =>
      match closing with
      | none => .ok (on opening kind, [])
      | some written => do
        let (openings, states) ← SpanRule.compileFrom state 0 inner
        let close : Scanner.Rule := ⟨.written written, .nonempty kind, [.pop]⟩
        let other : Scanner.Rule := ⟨.built .anything, .token kind, []⟩
        return (on opening kind [.enter state], states ++ [(state, openings ++ [close, other])])

/-- The rules that open spans side by side, the first at the given place, and the states that
they need. -/
def SpanRule.compileFrom (state : String) (place : Nat) :
    List SpanRule → Except UnknownTag (List Scanner.Rule × Table)
  | [] => .ok ([], [])
  | r :: rules => do
    let (opening, states) ← r.compile (state ++ "." ++ toString place)
    let (openings, more) ← SpanRule.compileFrom state (place + 1) rules
    return (opening :: openings, states ++ more)

end

/-- The rules that every grammar's root state ends with: blanks, words, and any other
character of a line. -/
def Grammar.plainRules : List Scanner.Rule := [
  ⟨.built (.many (.ofCategory .blank)), .token .whitespace, []⟩,
  ⟨.built (.many (.ofCategory .word)), .token .text, []⟩,
  ⟨.built .any, .token .text, []⟩]

/-- The rule for the keywords of a grammar, if it has any. -/
def Grammar.keywordRules (g : Grammar) : List Scanner.Rule :=
  if g.keywords.isEmpty then []
  else [⟨.built (.wholeWord (g.keywords.map String.toList)), .token .keyword, []⟩]

/-- The scanner table of a grammar's rules, the root state last. -/
def Grammar.table (g : Grammar) : Except UnknownTag Table := do
  let (openings, states) ← SpanRule.compileFrom rootState 0 g.rules
  return states ++ [(rootState, openings ++ g.keywordRules ++ Grammar.plainRules)]

/-- The name of the type of a grammar's lexer: the words of its display name, each with its
first letter in upper case. -/
def Grammar.typeName (g : Grammar) : String :=
  let capital : List Char → List Char
    | [] => []
    | c :: rest => Text.upperText c ++ rest
  let words := Text.fields (fun c => !Text.isWord c) g.displayName.toList
  String.ofList (words.flatMap capital) ++ "Lexer"

/-- What two words share when the grammar takes them for the same. -/
def Grammar.foldWord (g : Grammar) (word : String) : String :=
  if g.caseInsensitive then Text.fold word else word

/-- Whether a token can become a keyword of a grammar that builds on a lexer. -/
def Kind.canBeKeyword (k : Kind) : Bool :=
  k.isWithin .name && !k.isWithin .nameVariable

/-- The kind of a token once the names among a grammar's keywords are known. -/
def Grammar.retag (g : Grammar) (kind : Kind) (text : String) : Kind :=
  if kind.canBeKeyword && (g.keywords.map g.foldWord).contains (g.foldWord text) then .keyword
  else kind

/-- A scanner table whose nested scans begin at the root state only. -/
def rootOnly (t : Table) : Table :=
  let part : Part → Part
    | .nested (some _) => .refused
    | p => p
  let action : Action → Action
    | .groups parts => .groups (parts.map part)
    | a => a
  t.map fun (state, rules) => (state, rules.map fun r => { r with action := action r.action })

/-- The lexer of a grammar that builds on a ready-made lexer. -/
def Grammar.keywordLexer (g : Grammar) (base : Lexer) : Lexer where
  typeName := g.typeName
  parentName := base.typeName
  name := g.displayName
  aliases := g.name :: g.aliases
  filenames := g.filenames
  body :=
    match base.body with
    | .table flags t => .table flags (rootOnly t)
    | .json => .json
  retag := fun t => g.retag (base.retag t) t.text
  origin := .grammar g.name

/-- The lexer of a grammar with rules of its own. -/
def Grammar.ruleLexer (g : Grammar) : Except UnknownTag Lexer := do
  let table ← g.table
  return {
    typeName := g.typeName
    parentName := "RegexLexer"
    name := g.displayName
    aliases := g.name :: g.aliases
    filenames := g.filenames
    body := .table { multiLine := true, ignoreCase := g.caseInsensitive } table
    origin := .grammar g.name }

/-- The lexer of a grammar. -/
def Grammar.compile (g : Grammar) : Except UnknownTag Lexer :=
  match g.lexer with
  | none => g.ruleLexer
  | some base => .ok (if g.keywords.isEmpty then base.lexer else g.keywordLexer base.lexer)

end DocHighlighter
