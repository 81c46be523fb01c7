/-
# Reading a text by the tree of rules

What the rules of a grammar mean is said here without any states and tables.  A reader goes through
a text with the stack of the rules that are open.  At each place it tries, in this order,

| outside of all spans | inside a span |
|---|---|
| the openings of the grammar's rules | the openings of the inner rules of the innermost open rule |
| a whole keyword | the closing of that rule, which closes it |
| a run of blanks, a run of word characters | |
| one other character | one character, which takes the kind of the rule |

An opening makes a token of the kind of its rule, and opens the rule exactly if it has a closing
(`Grammar.read?`).  A text is read when nothing more can be (`Grammar.Reads`).
-/

import DocHighlighter.Proofs.Grammar.Table
import DocHighlighter.Proofs.Pattern.Runs
import DocHighlighter.Pattern.Notation

namespace DocHighlighter

open Text (Cursor)

/-- The kind of the tokens of a rule.  A rule whose tag has no kind does not compile. -/
def SpanRule.kind (r : SpanRule) : Kind :=
  (SpanRule.kindOf? r.tag).getD .text

/-- Where a reader stands: a place in the text, and the open rules, innermost first. -/
structure TreeReader where
  cursor : Cursor
  opened : List SpanRule

namespace Grammar

variable (g : Grammar)

/-- The rules that can be opened. -/
def candidates : List SpanRule → List SpanRule
  | [] => g.rules
  | r :: _ => r.inner

/-- Where the match of a written pattern ends, if it matches at a place. -/
def matchEnd? (written : String) (c : Cursor) : Option Cursor :=
  match Pattern.read g.scanFlags written with
  | .ok p => (p.matchAt? c).map Pattern.Match.stop
  | .error _ => none

/-- The first of some rules whose opening matches at a place, and where the opening ends. -/
def opening? (rules : List SpanRule) (c : Cursor) : Option (SpanRule × Cursor) :=
  rules.findSome? fun r => (g.matchEnd? r.opening c).map (r, ·)

/-- Where the keyword at a place ends, if one lies there between two word edges: the first of them
that does, where a word is tried before its own beginnings. -/
def keywordEnd? (c : Cursor) : Option Cursor :=
  (Pattern.tryOrder (Pattern.inOrder (g.keywords.map String.toList))).findSome?
    (Pattern.wholeWordEnd? g.scanFlags c)

/-- What stands at a place outside of all spans: its kind, and where it ends. -/
def plain? (c : Cursor) : Option (Kind × Cursor) :=
  (g.keywordEnd? c).map (.keyword, ·)
    |>.or ((c.runEnd? Text.isBlank).map (.whitespace, ·))
    |>.or ((c.runEnd? Text.isWord).map (.text, ·))
    |>.or (c.next?.map fun next => (.text, next.2))

/-- What a reader reads next: the tokens, and where it then stands. -/
def read? (k : TreeReader) : Option (List Token × TreeReader) :=
  match g.opening? (g.candidates k.opened) k.cursor with
  | some (r, d) =>
    some ([.ofChars r.kind (k.cursor.upTo d)],
      ⟨d, if r.closing.isSome then r :: k.opened else k.opened⟩)
  | none =>
    match k.opened with
    | [] =>
      (g.plain? k.cursor).map fun (kind, d) => ([.ofChars kind (k.cursor.upTo d)], ⟨d, []⟩)
    | r :: outer =>
      match r.closing.bind fun written => g.matchEnd? written k.cursor with
      | some d =>
        let text := k.cursor.upTo d
        some (if text.isEmpty then [] else [.ofChars r.kind text], ⟨d, outer⟩)
      | none =>
        k.cursor.next?.map fun (_, d) => ([.ofChars r.kind (k.cursor.upTo d)], ⟨d, r :: outer⟩)

/-- A reader reads some tokens until it can read no more. -/
inductive ReadsFrom : TreeReader → List Token → Prop
  | done {k : TreeReader} (h : g.read? k = none) : ReadsFrom k []
  | next {k k' : TreeReader} {first rest : List Token} (h : g.read? k = some (first, k'))
      (hrest : ReadsFrom k' rest) : ReadsFrom k (first ++ rest)

/-- A text is read from its start, with no rule open. -/
def Reads (text : List Char) (tokens : List Token) : Prop :=
  g.ReadsFrom ⟨Cursor.start text, []⟩ tokens

variable {g}

section Read

variable {c d : Cursor} {opened : List SpanRule} {r : SpanRule}

/-- A rule is opened wherever one can be. -/
theorem read?_of_opening (h : g.opening? (g.candidates opened) c = some (r, d)) :
    g.read? ⟨c, opened⟩ = some ([.ofChars r.kind (c.upTo d)],
      ⟨d, if r.closing.isSome then r :: opened else opened⟩) := by
  rw [read?, h]

theorem read?_of_root (h : g.opening? g.rules c = none) :
    g.read? ⟨c, []⟩ = (g.plain? c).map fun found =>
      ([.ofChars found.1 (c.upTo found.2)], ⟨found.2, []⟩) := by
  rw [read?, candidates, h]

theorem read?_of_span {written : String} (opened : List SpanRule) (h : g.opening? r.inner c = none)
    (hclosing : r.closing = some written) :
    g.read? ⟨c, r :: opened⟩ =
      ((g.matchEnd? written c).map fun d =>
        (if (c.upTo d).isEmpty then [] else [.ofChars r.kind (c.upTo d)], ⟨d, opened⟩)).or
          (c.next?.map fun next =>
            ([.ofChars r.kind (c.upTo next.2)], ⟨next.2, r :: opened⟩)) := by
  rw [read?, candidates, h]
  dsimp only
  rw [hclosing, Option.bind_some]
  cases g.matchEnd? written c <;> rfl

end Read

/-- What is read is determined. -/
theorem ReadsFrom.unique {k : TreeReader} {tokens tokens' : List Token}
    (h : g.ReadsFrom k tokens) (h' : g.ReadsFrom k tokens') : tokens = tokens' := by
  induction h generalizing tokens' with
  | done hend =>
    cases h' with
    | done => rfl
    | next hread => rw [hend] at hread; cases hread
  | next hread _ ih =>
    cases h' with
    | done hend => rw [hend] at hread; cases hread
    | next hread' hrest' =>
      obtain ⟨rfl, rfl⟩ := Prod.mk.inj (Option.some.inj (hread.symm.trans hread'))
      rw [ih hrest']

/-- A keyword is read exactly where one lies between two word edges. -/
theorem isSome_keywordEnd? {c : Cursor} :
    (g.keywordEnd? c).isSome ↔
      ∃ w ∈ g.keywords, (Pattern.wholeWordEnd? g.scanFlags c w.toList).isSome := by
  simp [keywordEnd?, List.findSome?_isSome_iff, Pattern.mem_tryOrder, Pattern.mem_inOrder]

/-- **The longest keyword is read,** if the case of letters counts. -/
theorem pos_le_of_keywordEnd? (hcase : g.caseInsensitive = false) {c d d' : Cursor} {w : String}
    (h : g.keywordEnd? c = some d) (hw : w ∈ g.keywords)
    (hw' : Pattern.wholeWordEnd? g.scanFlags c w.toList = some d') : d'.pos ≤ d.pos :=
  Pattern.pos_le_of_findSome? hcase h (Pattern.mem_inOrder.2 (List.mem_map_of_mem hw)) hw'

end Grammar
end DocHighlighter
