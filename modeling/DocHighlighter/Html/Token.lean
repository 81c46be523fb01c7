/-
# Tokens of a page

A page is read token by token: tags, comments, the document type and runs of
text.  How the next token is read depends on the place (`Reading`): in most
elements markup counts, in a few only references do, or nothing but the end tag.

A tag is read by a small machine that takes one character at a time
(`tagRest`).  A tag that the page's end cuts off is no token.  `next` gives the
next token, if the characters it takes are one, with the rest of the page, which
is shorter (`next_length_lt`).
-/

import DocHighlighter.Html.Doctype
import DocHighlighter.Html.Node

namespace DocHighlighter
namespace Html

/-- What counts as markup at a place of a page. -/
inductive Reading where
  /-- All markup; `foreign` says that the place is in a drawing or a formula. -/
  | markup (foreign : Bool)
  /-- References, and the end tag of the element of this name. -/
  | references (name : List Char)
  /-- The end tag of the element of this name. -/
  | endTag (name : List Char)
  /-- Nothing. -/
  | nothing

/-- A piece of a page. -/
inductive Token where
  | doctype (d : Doctype)
  | opening (name : String) (attributes : List Attribute) (selfClosing : Bool)
  | closing (name : String)
  | comment (content : List Char)
  | text (content : List Char)

namespace Token

/-- Puts U+FFFD in the place of U+0000. -/
def withoutNul (text : List Char) : List Char :=
  text.map fun c => if c == '\x00' then Reference.replacement else c

/-- A name as it counts: in lower case. -/
def nameOf (letters : List Char) : String :=
  String.ofList (withoutNul (letters.map Char.toLower))

/-- Whether a character begins the name of a tag. -/
def isTagStart (c : Char) : Bool :=
  c.isAlpha

/-- Whether a character ends the name of a tag. -/
def endsName (c : Char) : Bool :=
  Text.isMarkupBlank c || c == '/' || c == '>'

/-- Where the reading of a tag stands, after its name. -/
inductive TagState where
  | between
  | slash
  | name (read : List Char)
  | afterName (name : List Char)
  | beforeValue (name : List Char)
  | quoted (quote : Char) (name read : List Char)
  | bare (name read : List Char)

/-- Keeps an attribute, unless there is one of its name; name and value are given backwards. -/
def keep (known : List Attribute) (name value : List Char) : List Attribute :=
  let name := nameOf name.reverse
  if known.any (·.name == name) then known
  else known ++ [⟨name, withoutNul (Reference.decode true value.reverse)⟩]

/-- Where a character between attributes leads. -/
def TagState.start (c : Char) : TagState :=
  if Text.isMarkupBlank c then .between
  else if c == '/' then .slash
  else .name [c]

/-- Reads a tag after its name: its attributes and whether it closes itself, unless the page ends
in it; and the rest of the page. -/
def tagRest : TagState → List Attribute → List Char → Option (List Attribute × Bool) × List Char
  | _, _, [] => (none, [])
  | .between, known, c :: rest =>
    if c == '>' then (some (known, false), rest) else tagRest (.start c) known rest
  | .slash, known, c :: rest =>
    if c == '>' then (some (known, true), rest) else tagRest (.start c) known rest
  | .name read, known, c :: rest =>
    if c == '>' then (some (keep known read [], false), rest)
    else if c == '/' then tagRest .slash (keep known read []) rest
    else if c == '=' then tagRest (.beforeValue read) known rest
    else if Text.isMarkupBlank c then tagRest (.afterName read) known rest
    else tagRest (.name (c :: read)) known rest
  | .afterName name, known, c :: rest =>
    if c == '>' then (some (keep known name [], false), rest)
    else if c == '=' then tagRest (.beforeValue name) known rest
    else if Text.isMarkupBlank c then tagRest (.afterName name) known rest
    else tagRest (.start c) (keep known name []) rest
  | .beforeValue name, known, c :: rest =>
    if c == '>' then (some (keep known name [], false), rest)
    else if Text.isMarkupBlank c then tagRest (.beforeValue name) known rest
    else if c == '"' || c == '\'' then tagRest (.quoted c name []) known rest
    else tagRest (.bare name [c]) known rest
  | .quoted quote name read, known, c :: rest =>
    if c == quote then tagRest .between (keep known name read) rest
    else tagRest (.quoted quote name (c :: read)) known rest
  | .bare name read, known, c :: rest =>
    if c == '>' then (some (keep known name read, false), rest)
    else if Text.isMarkupBlank c then tagRest .between (keep known name read) rest
    else tagRest (.bare name (c :: read)) known rest

/-- The tag whose name starts a text, made a token by `make`; and the rest of the page. -/
def tag (make : String → List Attribute → Bool → Token) (text : List Char) :
    Option Token × List Char :=
  let name := nameOf (text.takeWhile (!endsName ·))
  match tagRest .between [] (text.dropWhile (!endsName ·)) with
  | (some (attributes, selfClosing), rest) => (some (make name attributes selfClosing), rest)
  | (none, rest) => (none, rest)

/-- A comment up to its end, the text read so far given backwards; and the rest of the page. -/
def commentRest (read : List Char) : List Char → List Char × List Char
  | '-' :: '-' :: '>' :: rest => (read.reverse, rest)
  | '-' :: '-' :: '!' :: '>' :: rest => (read.reverse, rest)
  | ['-', '-', '!'] => (read.reverse, [])
  | ['-', '-'] => (read.reverse, [])
  | ['-'] => (read.reverse, [])
  | [] => (read.reverse, [])
  | c :: rest => commentRest (c :: read) rest

/-- A comment after the characters that open it. -/
def commentFrom : List Char → List Char × List Char
  | '>' :: rest => ([], rest)
  | '-' :: '>' :: rest => ([], rest)
  | page => commentRest [] page

/-- The text up to a closing bracket, and what follows the bracket. -/
def upToBracket (text : List Char) : List Char × List Char :=
  (text.takeWhile (· != '>'), (text.dropWhile (· != '>')).drop 1)

/-- The text up to `]]>`, and what follows. -/
def upToSectionEnd (read : List Char) : List Char → List Char × List Char
  | ']' :: ']' :: '>' :: rest => (read.reverse, rest)
  | [] => (read.reverse, [])
  | c :: rest => upToSectionEnd (c :: read) rest

/-- Whether what follows a `<` makes it the beginning of markup. -/
def opensMarkup : List Char → Bool
  | '/' :: rest => !rest.isEmpty
  | c :: _ => isTagStart c || c == '!' || c == '?'
  | [] => false

/-- The text up to the next markup, and the rest of the page. -/
def textRun : List Char → List Char × List Char
  | [] => ([], [])
  | c :: rest =>
    if c == '<' && opensMarkup rest then ([], c :: rest)
    else
      let (run, tail) := textRun rest
      (c :: run, tail)

/-- Whether a text begins with the end tag of an element, up to the end of the name. -/
def startsEndTag (name : List Char) : List Char → Bool
  | '<' :: '/' :: page =>
    (page.take name.length).map Char.toLower == name &&
      match page.drop name.length with
      | c :: _ => endsName c
      | [] => false
  | _ => false

/-- The text up to the end tag of an element, and the rest of the page. -/
def plainRun (name : List Char) : List Char → List Char × List Char
  | [] => ([], [])
  | c :: rest =>
    if startsEndTag name (c :: rest) then ([], c :: rest)
    else
      let (run, tail) := plainRun name rest
      (c :: run, tail)

/-- A keyword at the start of a text, in any case. -/
def startsWith (keyword : List Char) (text : List Char) : Bool :=
  (text.take keyword.length).map Char.toLower == keyword

/-- The markup after `<!`. -/
def declaration (foreign : Bool) (text : List Char) : Option Token × List Char :=
  if ['-', '-'].isPrefixOf text then
    let (content, rest) := commentFrom (text.drop 2)
    (some (comment (withoutNul content)), rest)
  else if startsWith ['d', 'o', 'c', 't', 'y', 'p', 'e'] text then
    let (body, rest) := upToBracket (text.drop 7)
    let d := Doctype.read (withoutNul body)
    let closed := text.contains '>'
    (some (doctype { d with wellFormed := d.wellFormed && closed }), rest)
  else if foreign && ['[', 'C', 'D', 'A', 'T', 'A', '['].isPrefixOf text then
    let (content, rest) := upToSectionEnd [] (text.drop 7)
    (some (Token.text content), rest)
  else
    let (content, rest) := upToBracket text
    (some (comment (withoutNul content)), rest)

/-- The markup after `<`. -/
def markup (foreign : Bool) : List Char → Option Token × List Char
  | '/' :: '>' :: rest => (none, rest)
  | '/' :: c :: rest =>
    if isTagStart c then tag (fun name _ _ => closing name) (c :: rest)
    else
      let (content, tail) := upToBracket (c :: rest)
      (some (comment (withoutNul content)), tail)
  | '!' :: rest => declaration foreign rest
  | '?' :: rest =>
    let (content, tail) := upToBracket ('?' :: rest)
    (some (comment (withoutNul content)), tail)
  | page => tag opening page

/-- The text up to the end tag of an element, made a token by `make`, or else that end tag. -/
def upToEndTag (name : List Char) (make : List Char → Token) (text : List Char) :
    Option Token × List Char :=
  match plainRun name text with
  | ([], rest) => tag (fun name _ _ => closing name) (rest.drop 2)
  | (run, rest) => (some (make run), rest)

/-- The next token, if the characters taken are one, and the rest of the page. -/
def next (reading : Reading) (c : Char) (rest : List Char) : Option Token × List Char :=
  match reading with
  | .markup foreign =>
    if c == '<' && opensMarkup rest then markup foreign rest
    else
      let (run, tail) := textRun rest
      (some (text (Reference.decode false (c :: run))), tail)
  | .references name =>
    upToEndTag name (fun run => text (withoutNul (Reference.decode false run))) (c :: rest)
  | .endTag name => upToEndTag name (fun run => text (withoutNul run)) (c :: rest)
  | .nothing => (some (text (withoutNul (c :: rest))), [])

/-! ## Reading takes something -/

theorem tagRest_length_le (state : TagState) (known : List Attribute) (text : List Char) :
    (tagRest state known text).2.length ≤ text.length := by
  fun_induction tagRest state known text <;> simp_all <;> omega

theorem tag_length_le (make : String → List Attribute → Bool → Token) (text : List Char) :
    (tag make text).2.length ≤ text.length := by
  have h := tagRest_length_le .between [] (text.dropWhile (!endsName ·))
  have hd := (List.dropWhile_suffix (l := text) (!endsName ·)).length_le
  unfold tag
  simp only
  split <;> simp_all <;> omega

theorem commentRest_length_le (read text : List Char) :
    (commentRest read text).2.length ≤ text.length := by
  fun_induction commentRest read text <;> simp_all <;> omega

theorem commentFrom_length_le (text : List Char) :
    (commentFrom text).2.length ≤ text.length := by
  unfold commentFrom
  split
  · simp
  · simp only [List.length_cons]; omega
  · exact commentRest_length_le [] _

theorem upToBracket_length_le (text : List Char) :
    (upToBracket text).2.length ≤ text.length := by
  have h := (List.dropWhile_suffix (l := text) (· != '>')).length_le
  simp only [upToBracket, List.length_drop]
  omega

theorem upToSectionEnd_length_le (read text : List Char) :
    (upToSectionEnd read text).2.length ≤ text.length := by
  fun_induction upToSectionEnd read text <;> simp_all <;> omega

theorem textRun_length_le (text : List Char) : (textRun text).2.length ≤ text.length := by
  fun_induction textRun text <;> simp_all <;> omega

theorem plainRun_length_le (name text : List Char) :
    (plainRun name text).2.length ≤ text.length := by
  fun_induction plainRun name text <;> simp_all <;> omega

theorem declaration_length_le (foreign : Bool) (text : List Char) :
    (declaration foreign text).2.length ≤ text.length := by
  have hc := commentFrom_length_le (text.drop 2)
  have hb := upToBracket_length_le (text.drop 7)
  have hs := upToSectionEnd_length_le [] (text.drop 7)
  have ht := upToBracket_length_le text
  simp only [List.length_drop] at hc hb hs
  unfold declaration
  split
  · simp only; omega
  · split
    · simp only; omega
    · split
      · simp only; omega
      · exact ht

theorem markup_length_le (foreign : Bool) (text : List Char) :
    (markup foreign text).2.length ≤ text.length := by
  unfold markup
  split
  · simp only [List.length_cons]; omega
  · rename_i c rest _
    have hb := upToBracket_length_le (c :: rest)
    have ht := tag_length_le (fun name _ _ => closing name) (c :: rest)
    split
    · simp only [List.length_cons] at ht ⊢; omega
    · simp only [List.length_cons] at hb ⊢; omega
  · have h := declaration_length_le foreign ‹_›
    simp only [List.length_cons]; omega
  · rename_i rest
    have h := upToBracket_length_le ('?' :: rest)
    simpa using h
  · exact tag_length_le opening _

theorem upToEndTag_length_lt (name : List Char) (make : List Char → Token) (c : Char)
    (rest : List Char) : (upToEndTag name make (c :: rest)).2.length < (c :: rest).length := by
  unfold upToEndTag
  split
  · rename_i tail h
    have hl := plainRun_length_le name (c :: rest)
    rw [h] at hl
    have ht := tag_length_le (fun name _ _ => closing name) (tail.drop 2)
    simp only [List.length_drop, List.length_cons] at hl ht ⊢
    omega
  · rename_i run tail hne h
    unfold plainRun at h
    split at h
    · simp only [Prod.mk.injEq] at h
      exact absurd h.1.symm hne
    · have hl := plainRun_length_le name rest
      simp only [Prod.mk.injEq] at h
      rw [h.2] at hl
      simp only [List.length_cons]
      omega

/-- **Every token takes something:** what is left of the page is shorter. -/
theorem next_length_lt (reading : Reading) (c : Char) (rest : List Char) :
    (next reading c rest).2.length < (c :: rest).length := by
  unfold next
  split
  · split
    · have h := markup_length_le ‹_› rest
      simp only [List.length_cons]; omega
    · have h := textRun_length_le rest
      simp only [List.length_cons]; omega
  · exact upToEndTag_length_lt _ _ c rest
  · exact upToEndTag_length_lt _ _ c rest
  · simp

end Token
end Html
end DocHighlighter
