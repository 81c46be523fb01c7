/-
# Texts without brackets, braces and backticks

In such a text no span is opened inside of another one, and none but those that end with the line or
at a sign.  So the text is a row of passages, each read from outside of all spans, and each of one
kind:

| begins with | kind | goes on to |
|---|---|---|
| `//` | comment | the end of the line |
| `@` | documentation | over all blanks, then to the end of the line |
| `:`, blanks, a word | literal | over the blanks, then to the end of the line or an `@` |
| a blank, a word character | blank, keyword or name | the end of the run |
| any other character | text | the next character |

`passage` says it on lists of characters, and `colours` what kind each character of a text then gets.
The reader of the tree of rules gives them those (`kinds_of_readsFrom`), and so does the lexer
(`exists_tokens`).  What a passage reads depends on nothing before it.
-/

import DocHighlighter.Proofs.Grammar.Spans
import DocHighlighter.Proofs.Grammar.Words
import DocHighlighter.Proofs.Language.Idl.Patterns
import DocHighlighter.Proofs.Token.Tagging
import Mathlib.Data.List.TakeWhile

namespace DocHighlighter

open Text (Cursor isBlank isWord isDigit)

namespace Text.Cursor

variable {c d : Cursor} {a : Char}

theorem over?_of_next? (h : c.next? = some (a, d)) (x : Char) (w : List Char) :
    c.over? (x :: w) = if x = a then d.over? w else none := by
  rw [over?, over?, after_eq_of_next? h, List.length_cons, past_succ h]
  by_cases hx : x = a
  · simp [hx]
  · rw [if_neg hx, if_neg fun hlies => hx (List.cons_prefix_cons.1 hlies).1]

theorem over?_singleton (x : Char) (c : Cursor) :
    c.over? [x] = if c.after.head? = some x then some (c.past 1) else none := by
  rw [over?]
  cases c.after with
  | nil => rfl
  | cons b rest => simp [eq_comm]

theorem over?_of_not_mem {x : Char} (h : x ∉ c.after) (w : List Char) :
    c.over? (x :: w) = none :=
  if_neg fun hlies => h (hlies.subset List.mem_cons_self)

theorem after_skip_subset (p : Char → Bool) (c : Cursor) : (c.skip p).after ⊆ c.after := by
  rw [after_skip]
  exact (List.dropWhile_sublist p).subset

theorem LeadsTo.after_subset (h : c.LeadsTo d) : d.after ⊆ c.after := by
  rw [h.after_eq]
  exact List.subset_append_right _ _

end Text.Cursor

namespace Language
namespace Idl

/-- No bracket, brace or backtick is in the text. -/
def IsPlain (text : List Char) : Prop :=
  '[' ∉ text ∧ '{' ∉ text ∧ '`' ∉ text

theorem IsPlain.mono {text text' : List Char} (h : IsPlain text) (hsub : text' ⊆ text) :
    IsPlain text' :=
  ⟨fun hmem => h.1 (hsub hmem), fun hmem => h.2.1 (hsub hmem), fun hmem => h.2.2 (hsub hmem)⟩

/-- The kind of a word. -/
def wordKind (word : List Char) : Kind :=
  if String.ofList word ∈ keywords then .keyword else .text

/-- The kind of what is read next outside of all spans, from a first character on, and the text that
is left behind it. -/
def passage (a : Char) (rest : List Char) : Kind × List Char :=
  let value := rest.dropWhile isBlank
  if a = '/' ∧ rest.head? = some '/' then (.commentSingle, rest.dropWhile (· != '\n'))
  else if a = '@' then (.stringDoc, value.dropWhile (· != '\n'))
  else if a = ':' ∧ value.head?.any isWord then
    (if value.head?.any isDigit then .numberInteger else .nameConstant,
      value.dropWhile fun b => !endsLiteral b)
  else if isBlank a then (.whitespace, value)
  else if isWord a then (wordKind (a :: rest.takeWhile isWord), rest.dropWhile isWord)
  else (.text, rest)

theorem suffix_passage (a : Char) (rest : List Char) : (passage a rest).2 <:+ rest := by
  unfold passage
  dsimp only
  have hblank := List.dropWhile_suffix (l := rest) isBlank
  split
  · exact List.dropWhile_suffix _
  split
  · exact (List.dropWhile_suffix _).trans hblank
  split
  · exact (List.dropWhile_suffix _).trans hblank
  split
  · exact hblank
  split
  · exact List.dropWhile_suffix _
  · exact List.suffix_rfl

theorem passage_comment {rest : List Char} (h : rest.head? = some '/') :
    passage '/' rest = (.commentSingle, rest.dropWhile (· != '\n')) :=
  if_pos ⟨rfl, h⟩

theorem passage_documentation (rest : List Char) :
    passage '@' rest = (.stringDoc, (rest.dropWhile isBlank).dropWhile (· != '\n')) := by
  simp [passage]

theorem passage_value {rest : List Char} (h : (rest.dropWhile isBlank).head?.any isWord = true) :
    passage ':' rest =
      (if (rest.dropWhile isBlank).head?.any isDigit then .numberInteger else .nameConstant,
        (rest.dropWhile isBlank).dropWhile fun b => !endsLiteral b) := by
  simp [passage, h]

theorem passage_blank {a : Char} (ha : isBlank a = true) (rest : List Char) :
    passage a rest = (.whitespace, rest.dropWhile isBlank) := by
  have hslash : a ≠ '/' := fun h => absurd (h ▸ ha) (by decide)
  have hat : a ≠ '@' := fun h => absurd (h ▸ ha) (by decide)
  have hcolon : a ≠ ':' := fun h => absurd (h ▸ ha) (by decide)
  simp [passage, hslash, hat, hcolon, ha]

theorem passage_word {a : Char} (ha : isWord a = true) (rest : List Char) :
    passage a rest = (wordKind (a :: rest.takeWhile isWord), rest.dropWhile isWord) := by
  have hslash : a ≠ '/' := fun h => absurd (h ▸ ha) (by decide)
  have hat : a ≠ '@' := fun h => absurd (h ▸ ha) (by decide)
  have hcolon : a ≠ ':' := fun h => absurd (h ▸ ha) (by decide)
  have hblank : isBlank a = false := by
    cases hb : isBlank a with
    | false => rfl
    | true => rw [Text.isWord_of_isBlank hb] at ha; cases ha
  simp [passage, hslash, hat, hcolon, hblank, ha]

theorem passage_other {a : Char} {rest : List Char} (hslash : ¬ (a = '/' ∧ rest.head? = some '/'))
    (hat : a ≠ '@') (hvalue : ¬ (a = ':' ∧ (rest.dropWhile isBlank).head?.any isWord = true))
    (hblank : isBlank a = false) (hword : isWord a = false) : passage a rest = (.text, rest) := by
  rw [passage, if_neg hslash, if_neg hat, if_neg hvalue, hblank, hword]
  rfl

/-- The kind that each character of a text gets, passage by passage. -/
def colours : List Char → List Kind
  | [] => []
  | a :: rest =>
    have := (suffix_passage a rest).length_le
    List.replicate (rest.length + 1 - (passage a rest).2.length) (passage a rest).1 ++
      colours (passage a rest).2
termination_by text => text.length
decreasing_by
  simp only [List.length_cons]
  omega

theorem colours_nil : colours [] = [] := by
  rw [colours]

theorem colours_cons (a : Char) (rest : List Char) :
    colours (a :: rest) =
      List.replicate (rest.length + 1 - (passage a rest).2.length) (passage a rest).1 ++
        colours (passage a rest).2 := by
  rw [colours]

/-! ## Words -/

theorem mem_keywords {w : String} : w ∈ grammar.keywords ↔ w ∈ keywords :=
  Grammar.mem_wordSet

/-- The keywords are runs of word characters, and not empty. -/
theorem keywordsAreWords : grammar.KeywordsAreWords := by
  have hall : ∀ w ∈ keywords, w.toList ≠ [] ∧ w.toList.all isWord = true := by
    decide +kernel
  exact fun w hw => hall w (mem_keywords.1 hw)

theorem wordKind_eq (word : List Char) : grammar.wordKind word = wordKind word := by
  rw [Grammar.wordKind, wordKind, if_congr mem_keywords rfl rfl]

/-! ## Passages -/

/-- From a place outside of all spans a reader reads a passage of one kind, and what is left is the
given text. -/
def ReadsPassage (c : Cursor) (kind : Kind) (left : List Char) : Prop :=
  ∃ first e, grammar.ReadsTo ⟨c, []⟩ first ⟨e, []⟩ ∧ Grammar.Uniform kind first (c.upTo e) ∧
    c.LeadsTo e ∧ e.after = left ∧ e.AtEdge

section Passage

variable {c d e : Cursor} {a : Char} {r : SpanRule} {written : String} {p : Char → Bool}

/-- The span of a rule that a look ahead closes is a passage. -/
theorem readsPassage_of_opening (hopening : grammar.opening? grammar.rules c = some (r, d))
    (hclosing : r.closing = some written)
    (hmatch : ∀ c, grammar.matchEnd? written c = if c.after.head?.all p then some c else none)
    (hword : ∀ b, p b = true → isWord b = false)
    (hinner : ∀ e, d.LeadsTo e → grammar.opening? r.inner e = none) :
    ReadsPassage c r.kind (d.after.dropWhile fun a => !p a) := by
  obtain ⟨inside, hspan, huniform⟩ :=
    Grammar.exists_spanFrom_of_opening? (g := grammar) hclosing [] d hinner
  rw [Grammar.leave_of_ahead hmatch] at hspan huniform
  have hread : grammar.read? ⟨c, []⟩ = _ := Grammar.read?_of_opening hopening
  rw [if_pos (by rw [hclosing]; rfl)] at hread
  have hlead := Grammar.matchEnd?_leadsTo (Grammar.mem_of_opening? hopening).2
  refine ⟨_, d.skip fun a => !p a, .next hread hspan.readsTo, ?_,
    hlead.trans (Cursor.leadsTo_skip _ _), Cursor.after_skip _ _, Cursor.atEdge_skip ?_ d⟩
  · have hfirst : Grammar.Uniform r.kind [.ofChars r.kind (c.upTo d)] (c.upTo d) :=
      ⟨by simp [Token.ofChars], by simp [Token.textOf, Token.ofChars]⟩
    rw [← hlead.upTo_append (Cursor.leadsTo_skip _ d)]
    exact hfirst.append huniform
  · intro b hb
    cases hpb : p b with
    | false => rfl
    | true => rw [hword b hpb] at hb; cases hb

/-- What stands outside of all spans and opens none is a passage. -/
theorem readsPassage_of_plain {kind : Kind} (hopening : grammar.opening? grammar.rules c = none)
    (hplain : grammar.plain? c = some (kind, e)) (hlead : c.LeadsTo e) (hedge : c.AtEdge) :
    ReadsPassage c kind e.after := by
  have hread := Grammar.read?_of_root (g := grammar) hopening
  rw [hplain] at hread
  exact ⟨_, e, .next hread (.refl _), ⟨by simp [Token.ofChars], by simp [Token.textOf, Token.ofChars]⟩,
    hlead, rfl, Grammar.atEdge_of_plain? rfl keywordsAreWords hedge hplain⟩

/-- In a text without braces and brackets nothing is opened inside of documentation. -/
theorem opening?_docSpans_of_isPlain (h : IsPlain c.after) : grammar.opening? docSpans c = none := by
  rw [opening?_docSpans, Cursor.over?_of_not_mem h.2.1, Cursor.over?_of_not_mem h.1]
  rfl

/-- What is opened at a character of a text without brackets, braces and backticks. -/
theorem opening?_of_next? (hnext : c.next? = some (a, d)) (hplain : IsPlain c.after) :
    grammar.opening? grammar.rules c =
      if a = '/' ∧ d.after.head? = some '/' then some (comment, d.past 1)
      else if a = '@' then some (documentation, (d.skip isBlank).skip isWord)
      else if a = ':' ∧ (d.after.dropWhile isBlank).head?.any isWord then
        if (d.after.dropWhile isBlank).head?.any isDigit then
          some (literal, (d.skip isBlank).skip isDigit)
        else some (namedLiteral, (d.skip isBlank).skip isWord)
      else none := by
  have hfence : (d.skip isBlank).over? ['`', '`', '`'] = none :=
    Cursor.over?_of_not_mem (fun hmem => hplain.2.2 ((Cursor.LeadsTo.of_next? hnext).after_subset
      (Cursor.after_skip_subset _ _ hmem))) _
  rw [opening?_rules, Cursor.over?_of_next? hnext, Cursor.over?_singleton,
    Cursor.step?_of_next? hnext, Cursor.over?_of_not_mem hplain.2.1,
    Cursor.over?_of_not_mem hplain.1, signThenRun?, signThenRun?, Cursor.step?_of_next? hnext]
  by_cases hslash : a = '/'
  · subst hslash
    by_cases hhead : d.after.head? = some '/' <;> simp [hhead]
  by_cases hat : a = '@'
  · subst hat
    simp [hfence]
  by_cases hcolon : a = ':'
  · subst hcolon
    simp only [BEq.rfl, if_true, Option.bind_some, Cursor.runEnd?_eq_ite, Cursor.after_skip]
    cases hword : (d.after.dropWhile isBlank).head?.any isWord with
    | true => cases hdigit : (d.after.dropWhile isBlank).head?.any isDigit <;> simp
    | false =>
      have hdigit : (d.after.dropWhile isBlank).head?.any isDigit = false := by
        cases hvalue : (d.after.dropWhile isBlank).head? with
        | none => rfl
        | some b =>
          rw [hvalue, Option.any_some] at hword
          cases hb : isDigit b with
          | false => rw [Option.any_some, hb]
          | true => rw [Text.isWord_of_isDigit hb] at hword; cases hword
      simp [hdigit]
  · simp [Ne.symm hslash, hslash, Ne.symm hat, hat, Ne.symm hcolon, hcolon]

/-- Taking off more of a text at once or after a part of it. -/
theorem dropWhile_dropWhile {q : Char → Bool} (h : ∀ b, p b = true → q b = true)
    (text : List Char) : (text.dropWhile p).dropWhile q = text.dropWhile q := by
  induction text with
  | nil => rfl
  | cons b rest ih =>
    cases hp : p b with
    | true => rw [List.dropWhile_cons_of_pos hp, List.dropWhile_cons_of_pos (h b hp), ih]
    | false => rw [List.dropWhile_cons_of_neg (by simp [hp])]

theorem isWord_of_endsLiteral {b : Char} (h : endsLiteral b = true) : isWord b = false := by
  simp only [endsLiteral, Bool.or_eq_true, beq_iff_eq] at h
  rcases h with (rfl | rfl) | rfl <;> decide

theorem isWord_of_newline {b : Char} (h : (b == '\n') = true) : isWord b = false := by
  rw [eq_of_beq h]
  decide

/-- Word characters end no literal. -/
theorem not_endsLiteral_of_isWord {b : Char} (h : isWord b = true) : (!endsLiteral b) = true := by
  cases hb : endsLiteral b with
  | false => rfl
  | true => rw [isWord_of_endsLiteral hb] at h; cases h

theorem not_newline_of_isWord {b : Char} (h : isWord b = true) : (b != '\n') = true := by
  cases hb : b == '\n' with
  | false => rw [bne, hb]; rfl
  | true => rw [isWord_of_newline hb] at h; cases h

/-- A literal is a passage: the value goes on to the first sign that ends it. -/
theorem readsPassage_of_value
    (hopening : grammar.opening? grammar.rules c = some (r, (d.skip isBlank).skip p))
    (hclosing : r.closing = some literalEnd) (hinner : r.inner = [])
    (hp : ∀ b, p b = true → isWord b = true) :
    ReadsPassage c r.kind ((d.after.dropWhile isBlank).dropWhile fun b => !endsLiteral b) := by
  have hread := readsPassage_of_opening hopening hclosing matchEnd?_literalEnd
    (fun _ => isWord_of_endsLiteral) fun e _ => by rw [hinner]; rfl
  rwa [Cursor.after_skip, Cursor.after_skip,
    dropWhile_dropWhile fun b hb => not_endsLiteral_of_isWord (hp b hb)] at hread

/-- Blanks are a passage. -/
theorem readsPassage_of_blank (hnext : c.next? = some (a, d)) (ha : isBlank a = true)
    (hopening : grammar.opening? grammar.rules c = none) (hedge : c.AtEdge) :
    ReadsPassage c .whitespace (d.after.dropWhile isBlank) := by
  have hafter := Cursor.after_eq_of_next? hnext
  have hplain := Grammar.plain?_of_blank (g := grammar) (c := c) rfl keywordsAreWords
    (by rw [hafter]; exact ha)
  have hread := readsPassage_of_plain hopening hplain (Cursor.leadsTo_skip _ _) hedge
  rwa [Cursor.after_skip, hafter, List.dropWhile_cons_of_pos ha] at hread

/-- A word is a passage. -/
theorem readsPassage_of_word (hnext : c.next? = some (a, d)) (ha : isWord a = true)
    (hopening : grammar.opening? grammar.rules c = none) (hedge : c.AtEdge) :
    ReadsPassage c (wordKind (a :: d.after.takeWhile isWord)) (d.after.dropWhile isWord) := by
  have hafter := Cursor.after_eq_of_next? hnext
  have hrun : c.word = a :: d.after.takeWhile isWord := by
    rw [Cursor.word, hafter, List.takeWhile_cons_of_pos ha]
  have hplain := Grammar.plain?_of_word (g := grammar) rfl keywordsAreWords
    (hedge.beginsWord (by rw [hafter]; exact ha))
  rw [wordKind_eq, hrun] at hplain
  have hread := readsPassage_of_plain hopening hplain (Cursor.leadsTo_skip _ _) hedge
  rwa [Cursor.after_skip, hafter, List.dropWhile_cons_of_pos ha] at hread

/-- Any other character is a passage. -/
theorem readsPassage_of_other (hnext : c.next? = some (a, d)) (hblank : isBlank a = false)
    (hword : isWord a = false) (hopening : grammar.opening? grammar.rules c = none)
    (hedge : c.AtEdge) : ReadsPassage c .text d.after := by
  have hafter := Cursor.after_eq_of_next? hnext
  have hplain := Grammar.plain?_of_other (g := grammar) (c := c) rfl keywordsAreWords
    (by rw [hafter]; exact hblank) (by rw [hafter]; exact hword)
  rw [hnext] at hplain
  exact readsPassage_of_plain hopening hplain (.of_next? hnext) hedge

/-- **What is read next** outside of all spans is a passage. -/
theorem readsPassage (hnext : c.next? = some (a, d)) (hplain : IsPlain c.after)
    (hedge : c.AtEdge) : ReadsPassage c (passage a d.after).1 (passage a d.after).2 := by
  have hopening := opening?_of_next? hnext hplain
  have hlead := Cursor.LeadsTo.of_next? hnext
  unfold passage
  dsimp only
  split at hopening
  · -- a comment
    next hslash =>
    obtain ⟨rest, hrest⟩ := List.head?_eq_some_iff.1 hslash.2
    have hread := readsPassage_of_opening hopening rfl matchEnd?_lineEnd
      (fun _ => isWord_of_newline) fun e _ => rfl
    rw [Cursor.after_past, hrest] at hread
    rw [if_pos hslash, hrest]
    exact hread
  next hslash =>
  rw [if_neg hslash]
  split at hopening
  · -- documentation
    next hat =>
    have hread := readsPassage_of_opening hopening rfl matchEnd?_lineEnd
      (fun _ => isWord_of_newline) fun e he => by
        refine opening?_docSpans_of_isPlain (hplain.mono ?_)
        have hall := (hlead.trans ((Cursor.leadsTo_skip isBlank d).trans
          (Cursor.leadsTo_skip isWord _))).trans he
        exact hall.after_subset
    rw [Cursor.after_skip, Cursor.after_skip] at hread
    rw [if_pos hat]
    rwa [show (fun b => !(b == '\n')) = (· != '\n') from rfl,
      dropWhile_dropWhile fun b => not_newline_of_isWord] at hread
  next hat =>
  rw [if_neg hat]
  split at hopening
  · -- a literal
    next hvalue =>
    rw [if_pos hvalue]
    split at hopening
    · next hdigit =>
      rw [if_pos hdigit]
      exact readsPassage_of_value hopening rfl rfl fun _ => Text.isWord_of_isDigit
    · next hdigit =>
      rw [if_neg hdigit]
      exact readsPassage_of_value hopening rfl rfl fun _ => id
  next hvalue =>
  rw [if_neg hvalue]
  cases hblank : isBlank a with
  | true => exact readsPassage_of_blank hnext hblank hopening hedge
  | false =>
    cases hword : isWord a with
    | true => exact readsPassage_of_word hnext hword hopening hedge
    | false => exact readsPassage_of_other hnext hblank hword hopening hedge

/-- At the end of a text nothing is read outside of all spans. -/
theorem read?_of_end (hnext : c.next? = none) : grammar.read? ⟨c, []⟩ = none := by
  have hnil := Cursor.after_eq_nil_of_next? hnext
  have hopening : grammar.opening? grammar.rules c = none := by
    simp [opening?_rules, signThenRun?, Cursor.step?_of_end hnext, Cursor.over?, hnil]
  rw [Grammar.read?_of_root hopening, Grammar.plain?_of_other rfl keywordsAreWords
    (by rw [hnil]; rfl) (by rw [hnil]; rfl), hnext]
  rfl

end Passage

/-- **A reader that stands outside of all spans gives the characters to come their kinds,** passage
by passage. -/
theorem kinds_of_readsFrom {c : Cursor} {tokens : List Token} (hplain : IsPlain c.after)
    (hedge : c.AtEdge) (h : grammar.ReadsFrom ⟨c, []⟩ tokens) :
    Token.kinds tokens = colours c.after := by
  induction hn : c.remaining using Nat.strong_induction_on generalizing c tokens with
  | h n ih =>
    cases hnext : c.next? with
    | none =>
      cases h with
      | done => rw [Cursor.after_eq_nil_of_next? hnext, colours_nil, Token.kinds_nil]
      | next hread => rw [read?_of_end hnext] at hread; cases hread
    | some next =>
      obtain ⟨a, d⟩ := next
      obtain ⟨first, e, hreads, huniform, hlead, hleft, hedge'⟩ := readsPassage hnext hplain hedge
      obtain ⟨rest, rfl, hrest⟩ := hreads.exists_rest h
      have hafter := Cursor.after_eq_of_next? hnext
      have hlength := congrArg List.length hlead.after_eq
      have hshort := (suffix_passage a d.after).length_le
      rw [List.length_append, ← c.remaining_eq, hleft] at hlength
      have hcount : (c.upTo e).length = d.after.length + 1 - (passage a d.after).2.length := by
        rw [c.remaining_eq, hafter, List.length_cons] at hlength
        omega
      have hrest' := ih e.remaining (by
        rw [e.remaining_eq, hleft, ← hn, c.remaining_eq, hafter, List.length_cons]
        omega) (hplain.mono hlead.after_subset) hedge' hrest rfl
      rw [Token.kinds_append, Token.kinds_eq_replicate huniform.kind_eq, huniform.textOf_eq, hcount,
        hrest', hleft, hafter, colours_cons]

/-- **The lexer gives the characters of such a text their kinds,** passage by passage. -/
theorem exists_tokens :
    ∃ l, grammar.compile = .ok l ∧ ∀ text, IsPlain text →
      ∃ tokens, l.tokens text = .ok tokens ∧ Token.kinds tokens = colours text := by
  obtain ⟨l, hl, hreads⟩ := Grammar.exists_reads rfl tagsKnown patternsRead openingsTake
  refine ⟨l, hl, fun text hplain => ?_⟩
  obtain ⟨tokens, htokens, hall, -⟩ := hreads text
  exact ⟨tokens, htokens, kinds_of_readsFrom (c := Cursor.start text) hplain (.inl rfl) hall⟩

theorem length_colours (text : List Char) : (colours text).length = text.length := by
  fun_induction colours text with
  | case1 => rfl
  | case2 a rest hle ih =>
    rw [List.length_append, List.length_replicate, ih, List.length_cons]
    omega

end Idl
end Language
end DocHighlighter
