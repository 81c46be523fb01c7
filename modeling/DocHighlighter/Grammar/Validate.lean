/-
# Defects of grammars

A grammar is checked rule by rule, each rule before the rules inside it.  A rule
is named by its path: the name of the grammar and the places in the tree.  An
opening pattern must not match the empty text, because the scan would never
advance.

Most faults of patterns are reported as defects.  The others stop the check:
numbers that are too large, and flags for the whole pattern that exclude one
another (`Pattern.Fault.stopsCheck`).
-/

import DocHighlighter.Grammar.Basic

namespace DocHighlighter

/-- Which of a rule's two patterns is meant. -/
inductive PatternRole where
  | opening
  | closing
  deriving DecidableEq

/-- The word for a role in messages. -/
def PatternRole.word : PatternRole → String
  | opening => "begin"
  | closing => "end"

/-- A defect of a grammar. -/
inductive Defect where
  | unknownTag (path tag : String)
  | invalidPattern (path : String) (role : PatternRole) (pattern : String)
      (fault : Pattern.Fault)
  | matchesEmpty (path pattern : String)
  /-- The grammar has neither rules nor a lexer to build on. -/
  | nothing (name : String)
  deriving DecidableEq

/-- The message about a defect. -/
def Defect.message : Defect → String
  | unknownTag path tag => path ++ ": unknown tag " ++ Text.quoted tag
  | invalidPattern path role pattern fault =>
    path ++ ": " ++ role.word ++ " pattern " ++ Text.quoted pattern ++ " invalid: " ++
      fault.message pattern
  | matchesEmpty path pattern =>
    path ++ ": begin pattern " ++ Text.quoted pattern ++ " matches empty text"
  | nothing name => name ++ ": no rules and no base lexer"

/-- The flags under which patterns are checked. -/
def Grammar.checkFlags : Pattern.Flags := { multiLine := true }

/-- Whether a fault of a pattern stops the check instead of being reported. -/
def Pattern.Fault.stopsCheck : Pattern.Fault → Bool
  | .tooManyTurns => true
  | .tooManyDigits _ => true
  | .mixedAlphabets => true
  | _ => false

/-- The defects of one pattern of a rule. -/
def SpanRule.patternDefects (path : String) (role : PatternRole) (written : String) :
    Except Pattern.Fault (List Defect) :=
  match Pattern.read Grammar.checkFlags written with
  | .error fault =>
    if fault.stopsCheck then .error fault else .ok [.invalidPattern path role written fault]
  | .ok pattern =>
    if role = .opening ∧ pattern.matchesEmpty then .ok [.matchesEmpty path written]
    else .ok []

mutual

/-- The defects of a rule and of the rules inside it. -/
def SpanRule.defects (path : String) : SpanRule → Except Pattern.Fault (List Defect)
  | ⟨tag, opening, closing, inner⟩ => do
    let ofTag := if (SpanRule.kindOf? tag).isNone then [Defect.unknownTag path tag] else []
    let ofOpening ← SpanRule.patternDefects path .opening opening
    let ofClosing ←
      match closing with
      | some written => SpanRule.patternDefects path .closing written
      | none => pure []
    let ofInner ← SpanRule.defectsFrom path 0 inner
    return ofTag ++ ofOpening ++ ofClosing ++ ofInner

/-- The defects of rules that stand side by side, the first at the given place. -/
def SpanRule.defectsFrom (path : String) (place : Nat) :
    List SpanRule → Except Pattern.Fault (List Defect)
  | [] => .ok []
  | r :: rules => do
    let here ← r.defects (path ++ "." ++ toString place)
    let rest ← SpanRule.defectsFrom path (place + 1) rules
    return here ++ rest

end

/-- The defects of a grammar. -/
def Grammar.defects (g : Grammar) : Except Pattern.Fault (List Defect) := do
  let ofRules ← SpanRule.defectsFrom g.name 0 g.rules
  let ofGrammar := if g.lexer.isNone && g.rules.isEmpty then [Defect.nothing g.name] else []
  return ofRules ++ ofGrammar

end DocHighlighter
