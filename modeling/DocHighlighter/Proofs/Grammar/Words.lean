/-
# Words outside of all spans

A keyword lies between two word edges, so where a word begins there is no choice: of the keywords
only the whole run of word characters can be one (`wholeWordEnd?_iff`).  Whatever order the keywords
are tried in, what is read is therefore that run, and it is a keyword exactly if it is among them.
It makes no difference that the pattern for the keywords is written with what they have in common
standing once (`keywordEnd?_eq_wordForm`).

| outside of all spans, at a place | is read |
|---|---|
| where a word begins | the run of word characters, as a keyword or as text (`plain?_of_word`) |
| before a blank | all blanks |
| before another character that is no word character | that character, as text |

In the middle of a word the rest of it would be taken for text.  What is read from a place that is
not in the middle of a word leads to such a place again (`atEdge_of_plain?`).
-/

import DocHighlighter.Proofs.Grammar.Refines
import DocHighlighter.Proofs.Pattern.FormMatches
import DocHighlighter.Proofs.Pattern.Sequences
import DocHighlighter.Proofs.Text.Classes
import Mathlib.Data.List.TakeWhile

namespace DocHighlighter

open Scanner
open Text (Cursor isBlank isWord)

namespace Text.Cursor

variable {c d : Cursor} {p : Char → Bool}

/-- No word goes on from before a place to behind it. -/
def AtEdge (c : Cursor) : Prop :=
  c.before.head?.any isWord = false ∨ c.after.head?.any isWord = false

/-- A word begins at a place. -/
structure BeginsWord (c : Cursor) : Prop where
  before : c.before.head?.any isWord = false
  after : c.after.head?.any isWord = true

/-- The word characters that come next. -/
def word (c : Cursor) : List Char :=
  c.after.takeWhile isWord

theorem AtEdge.beginsWord (h : c.AtEdge) (hword : c.after.head?.any isWord = true) :
    c.BeginsWord := by
  rcases h with hbefore | hafter
  · exact ⟨hbefore, hword⟩
  · rw [hword] at hafter
    cases hafter

theorem atEdge_start (text : List Char) : (start text).AtEdge :=
  .inl rfl

/-- Behind characters that are no word characters no word goes on. -/
theorem LeadsTo.atEdge (h : c.LeadsTo d) (hne : c.upTo d ≠ [])
    (hall : ∀ a ∈ c.upTo d, isWord a = false) : d.AtEdge := by
  refine .inl ?_
  obtain ⟨a, rest, hrev⟩ := List.exists_cons_of_ne_nil (List.reverse_ne_nil_iff.2 hne)
  have ha : a ∈ c.upTo d := by
    rw [← List.mem_reverse, hrev]
    exact List.mem_cons_self
  rw [h.before_eq, hrev]
  exact hall a ha

/-- What comes behind all characters of a class is none of them. -/
theorem head?_after_skip (p : Char → Bool) (c : Cursor) : (c.skip p).after.head?.any p = false := by
  have hhead := List.head?_dropWhile_not p c.after
  rw [after_skip]
  cases hdrop : (c.after.dropWhile p).head? with
  | none => rfl
  | some b =>
    rw [hdrop] at hhead
    simpa using hhead

/-- Behind a run that takes all word characters no word goes on. -/
theorem atEdge_skip (hp : ∀ a, isWord a = true → p a = true) (c : Cursor) :
    (c.skip p).AtEdge := by
  refine .inr ?_
  have hhead := head?_after_skip p c
  cases hnext : (c.skip p).after.head? with
  | none => rfl
  | some a =>
    rw [hnext, Option.any_some] at hhead
    rw [Option.any_some]
    cases ha : isWord a with
    | false => rfl
    | true => rw [hp a ha] at hhead; cases hhead

namespace BeginsWord

/-- Where a word begins, no blank comes next. -/
theorem not_blank (h : c.BeginsWord) : c.after.head?.any isBlank = false := by
  have hword := h.after
  cases hnext : c.after.head? with
  | none => rfl
  | some a =>
    rw [hnext, Option.any_some] at hword
    rw [Option.any_some]
    cases ha : isBlank a with
    | false => rfl
    | true => rw [Text.isWord_of_isBlank ha] at hword; cases hword

theorem word_ne_nil (h : c.BeginsWord) : c.word ≠ [] := by
  have hword := h.after
  unfold word
  cases hafter : c.after with
  | nil => rw [hafter] at hword; cases hword
  | cons a rest =>
    rw [hafter] at hword
    rw [List.takeWhile_cons_of_pos (by exact hword)]
    exact List.cons_ne_nil _ _

end BeginsWord
end Text.Cursor

namespace Grammar

variable {g : Grammar} {c d : Cursor} {w : List Char} {kind : Kind}

/-- The keywords are runs of word characters, and not empty. -/
def KeywordsAreWords (g : Grammar) : Prop :=
  ∀ w ∈ g.keywords, w.toList ≠ [] ∧ w.toList.all isWord = true

/-- The kind of a whole word outside of all spans. -/
def wordKind (g : Grammar) (word : List Char) : Kind :=
  if String.ofList word ∈ g.keywords then .keyword else .text

theorem wordKind_eq_keyword_iff : g.wordKind w = .keyword ↔ String.ofList w ∈ g.keywords := by
  unfold wordKind
  split <;> simp [*]

theorem wordKind_eq_text_iff : g.wordKind w = .text ↔ String.ofList w ∉ g.keywords := by
  unfold wordKind
  split <;> simp [*]

/-! ## Keywords at a place -/

/-- **A keyword is read where the written form of the keywords matches** between two word edges. -/
theorem keywordEnd?_eq_wordForm (hne : g.keywords ≠ []) (hnodup : g.keywords.Nodup) (c : Cursor) :
    g.keywordEnd? c =
      ((⟨.seq (.anchor .wordEdge) (.seq
        (Pattern.wordForm (Pattern.inOrder (g.keywords.map String.toList))).expr
          (.anchor .wordEdge)), g.scanFlags⟩ : Pattern).matchAt? c).map Pattern.Match.stop := by
  have hwords : (g.keywords.map String.toList).Nodup :=
    hnodup.map fun _ _ => String.toList_inj.1
  rw [Pattern.matchAt?_wordForm (by simpa using hne) hwords, Pattern.matchAt?_wholeWord,
    Option.map_map]
  exact (Option.map_id' ..).symm

/-- Behind a word that lies at a place, a word character has just been read, so there is a word edge
exactly if none comes next. -/
theorem isWordEdge_past (hw : w ≠ []) (hall : w.all isWord = true) (hlies : w <+: c.after) :
    Pattern.isWordEdge g.scanFlags.ascii (c.past w.length) = true ↔
      (c.after.drop w.length).head?.any isWord = false := by
  show ((c.past w.length).before.head?.any isWord != (c.past w.length).after.head?.any isWord) =
    true ↔ _
  rw [(Cursor.leadsTo_past w.length c).before_eq, Cursor.upTo_past,
    ← List.prefix_iff_eq_take.1 hlies, Cursor.after_past]
  obtain ⟨b, rest, hrev⟩ := List.exists_cons_of_ne_nil (List.reverse_ne_nil_iff.2 hw)
  have hb : isWord b = true := by
    refine List.all_eq_true.1 hall b (List.mem_reverse.1 ?_)
    rw [hrev]
    exact List.mem_cons_self
  rw [hrev]
  simp [hb]

/-- Where a word begins, a whole word lies exactly if it is the run of word characters there. -/
theorem wholeWordEnd?_iff (hcase : g.caseInsensitive = false) (h : c.BeginsWord) (hw : w ≠ [])
    (hall : w.all isWord = true) :
    Pattern.wholeWordEnd? g.scanFlags c w = some d ↔ w = c.word ∧ d = c.skip isWord := by
  have hedge : Pattern.isWordEdge g.scanFlags.ascii c = true := by
    show (c.before.head?.any isWord != c.after.head?.any isWord) = true
    rw [h.before, h.after]
    rfl
  rw [Pattern.wholeWordEnd?, if_pos hedge, Option.filter_eq_some_iff,
    Pattern.sameText_eq_some_iff hcase, Cursor.word]
  constructor
  · rintro ⟨⟨hlies, rfl⟩, hend⟩
    have hstop := (isWordEdge_past hw hall hlies).1 hend
    obtain ⟨rest, hrest⟩ := hlies
    rw [← hrest, List.drop_left] at hstop
    have hrun : w = c.after.takeWhile isWord := by
      rw [← hrest, List.takeWhile_append_of_pos (List.all_eq_true.1 hall)]
      cases rest with
      | nil => simp
      | cons b rest => simpa using hstop
    exact ⟨hrun, by rw [Cursor.skip, ← hrun]⟩
  · rintro ⟨hrun, rfl⟩
    have hlies : w <+: c.after := hrun ▸ List.takeWhile_prefix _
    refine ⟨⟨hlies, by rw [Cursor.skip, ← hrun]⟩, ?_⟩
    rw [Cursor.skip, ← hrun]
    refine (isWordEdge_past hw hall hlies).2 ?_
    rw [hrun, ← Cursor.after_past]
    exact Cursor.head?_after_skip isWord c

/-- **Where a word begins,** a keyword is read exactly if the run of word characters is one. -/
theorem keywordEnd?_of_word (hcase : g.caseInsensitive = false) (hwords : g.KeywordsAreWords)
    (h : c.BeginsWord) :
    g.keywordEnd? c = if String.ofList c.word ∈ g.keywords then some (c.skip isWord) else none := by
  have hiff : ∀ w ∈ g.keywords, ∀ d, Pattern.wholeWordEnd? g.scanFlags c w.toList = some d ↔
      w.toList = c.word ∧ d = c.skip isWord := fun w hw d =>
    wholeWordEnd?_iff hcase h (hwords w hw).1 (hwords w hw).2
  have hend : ∀ d, g.keywordEnd? c = some d →
      d = c.skip isWord ∧ String.ofList c.word ∈ g.keywords := by
    intro d hd
    obtain ⟨v, hv, hlies⟩ := List.exists_of_findSome?_eq_some hd
    obtain ⟨w, hw, rfl⟩ := List.mem_map.1 (Pattern.mem_inOrder.1 ((Pattern.mem_tryOrder _ _).1 hv))
    obtain ⟨hrun, rfl⟩ := (hiff w hw d).1 hlies
    exact ⟨rfl, by rwa [← hrun, String.ofList_toList]⟩
  split
  · next hmem =>
    have hsome : (g.keywordEnd? c).isSome := by
      refine isSome_keywordEnd?.2 ⟨_, hmem, ?_⟩
      rw [(hiff _ hmem _).2 ⟨String.toList_ofList, rfl⟩]
      rfl
    obtain ⟨d, hd⟩ := Option.isSome_iff_exists.1 hsome
    rw [hd, (hend d hd).1]
  · next hmem => exact Option.eq_none_iff_forall_ne_some.2 fun d hd => hmem (hend d hd).2

/-- No keyword is read where no word character comes next. -/
theorem keywordEnd?_of_not_word (hcase : g.caseInsensitive = false) (hwords : g.KeywordsAreWords)
    (hword : c.after.head?.any isWord = false) : g.keywordEnd? c = none := by
  refine Option.eq_none_iff_forall_ne_some.2 fun d hd => ?_
  obtain ⟨w, hw, hlies⟩ := isSome_keywordEnd?.1 (Option.isSome_iff_exists.2 ⟨d, hd⟩)
  obtain ⟨hne, hall⟩ := hwords w hw
  obtain ⟨e, he⟩ := Option.isSome_iff_exists.1 hlies
  unfold Pattern.wholeWordEnd? at he
  split at he
  · obtain ⟨hpre, -⟩ :=
      (Pattern.sameText_eq_some_iff hcase).1 (Option.filter_eq_some_iff.1 he).1
    obtain ⟨b, rest, hw'⟩ := List.exists_cons_of_ne_nil hne
    obtain ⟨more, hafter⟩ := hpre
    rw [← hafter, hw'] at hword
    rw [hw', List.all_cons, Bool.and_eq_true] at hall
    rw [List.cons_append, List.head?_cons, Option.any_some, hall.1] at hword
    cases hword
  · cases he

/-! ## What is read -/

theorem leadsTo_of_keywordEnd? (h : g.keywordEnd? c = some d) : c.LeadsTo d := by
  obtain ⟨w, -, hlies⟩ := List.exists_of_findSome?_eq_some h
  unfold Pattern.wholeWordEnd? at hlies
  split at hlies
  · exact Pattern.leadsTo_of_sameText (Option.filter_eq_some_iff.1 hlies).1
  · cases hlies

theorem leadsTo_of_plain? (h : g.plain? c = some (kind, d)) : c.LeadsTo d := by
  have hrun : ∀ {p : Char → Bool} {e}, c.runEnd? p = some e → c.LeadsTo e := by
    intro p e he
    rw [Cursor.runEnd?_eq_ite] at he
    obtain ⟨-, hskip⟩ := Option.ite_none_right_eq_some.1 he
    exact Option.some.inj hskip ▸ Cursor.leadsTo_skip p c
  simp only [plain?, Option.or_eq_some_iff, Option.map_eq_some_iff, Prod.mk.injEq] at h
  obtain ((⟨e, he, -, rfl⟩ | ⟨-, e, he, -, rfl⟩) | ⟨-, e, he, -, rfl⟩) | ⟨-, next, hnext, -, rfl⟩ := h
  · exact leadsTo_of_keywordEnd? he
  · exact hrun he
  · exact hrun he
  · exact .of_next? hnext

/-- **Where a word begins,** the run of word characters is read, and it is a keyword exactly if it is
one of the grammar's. -/
theorem plain?_of_word (hcase : g.caseInsensitive = false) (hwords : g.KeywordsAreWords)
    (h : c.BeginsWord) : g.plain? c = some (g.wordKind c.word, c.skip isWord) := by
  rw [plain?, keywordEnd?_of_word hcase hwords h, Cursor.runEnd?_eq_ite, Cursor.runEnd?_eq_ite,
    h.not_blank, h.after, wordKind]
  split <;> rfl

theorem plain?_of_blank (hcase : g.caseInsensitive = false) (hwords : g.KeywordsAreWords)
    (hblank : c.after.head?.any isBlank = true) :
    g.plain? c = some (.whitespace, c.skip isBlank) := by
  have hword : c.after.head?.any isWord = false := by
    cases hnext : c.after.head? with
    | none => rfl
    | some a =>
      rw [hnext, Option.any_some] at hblank
      exact Text.isWord_of_isBlank hblank
  rw [plain?, keywordEnd?_of_not_word hcase hwords hword, Cursor.runEnd?_eq_ite, if_pos hblank]
  rfl

theorem plain?_of_other (hcase : g.caseInsensitive = false) (hwords : g.KeywordsAreWords)
    (hblank : c.after.head?.any isBlank = false) (hword : c.after.head?.any isWord = false) :
    g.plain? c = c.next?.map fun next => (.text, next.2) := by
  rw [plain?, keywordEnd?_of_not_word hcase hwords hword, Cursor.runEnd?_eq_ite, hblank,
    Cursor.runEnd?_eq_ite, hword]
  rfl

/-- What is read outside of all spans from a place that is not in the middle of a word. -/
theorem plain?_cases (hcase : g.caseInsensitive = false) (hwords : g.KeywordsAreWords)
    (hedge : c.AtEdge) (h : g.plain? c = some (kind, d)) :
    (c.BeginsWord ∧ kind = g.wordKind c.word ∧ d = c.skip isWord) ∨
      (c.after.head?.any isBlank = true ∧ kind = .whitespace ∧ d = c.skip isBlank) ∨
      ∃ a, c.next? = some (a, d) ∧ isWord a = false ∧ kind = .text := by
  cases hword : c.after.head?.any isWord with
  | true =>
    have hbegins := hedge.beginsWord hword
    rw [plain?_of_word hcase hwords hbegins] at h
    obtain ⟨rfl, rfl⟩ := Prod.mk.inj (Option.some.inj h)
    exact .inl ⟨hbegins, rfl, rfl⟩
  | false =>
    cases hblank : c.after.head?.any isBlank with
    | true =>
      rw [plain?_of_blank hcase hwords hblank] at h
      obtain ⟨rfl, rfl⟩ := Prod.mk.inj (Option.some.inj h)
      exact .inr (.inl ⟨rfl, rfl, rfl⟩)
    | false =>
      rw [plain?_of_other hcase hwords hblank hword] at h
      obtain ⟨⟨a, e⟩, hnext, hsame⟩ := Option.map_eq_some_iff.1 h
      obtain ⟨rfl, rfl⟩ := Prod.mk.inj hsame
      rw [Cursor.after_eq_of_next? hnext] at hword
      exact .inr (.inr ⟨a, hnext, hword, rfl⟩)

/-- **What is read outside of all spans ends in no word,** if it does not begin in one. -/
theorem atEdge_of_plain? (hcase : g.caseInsensitive = false) (hwords : g.KeywordsAreWords)
    (hedge : c.AtEdge) (h : g.plain? c = some (kind, d)) : d.AtEdge := by
  obtain ⟨-, -, rfl⟩ | ⟨hblank, -, rfl⟩ | ⟨a, hnext, ha, -⟩ := plain?_cases hcase hwords hedge h
  · exact Cursor.atEdge_skip (fun _ => id) c
  · refine (Cursor.leadsTo_skip isBlank c).atEdge ?_ fun a ha => ?_
    · rw [Cursor.upTo_skip]
      cases hafter : c.after with
      | nil => rw [hafter] at hblank; cases hblank
      | cons a rest =>
        rw [hafter] at hblank
        rw [List.takeWhile_cons_of_pos (by exact hblank)]
        exact List.cons_ne_nil _ _
    · rw [Cursor.upTo_skip] at ha
      exact Text.isWord_of_isBlank (List.mem_takeWhile_imp ha)
  · refine .inl ?_
    rw [Cursor.before_eq_of_next? hnext]
    exact ha

/-! ## The step of the lexer -/

section Step

variable {table : Table} {ready : ReadyTable}

/-- The lexer of a grammar with rules of its own scans by the table of the grammar. -/
theorem table_of_body {l : Lexer} {flags : Pattern.Flags} (hlexer : g.lexer = none)
    (hcompile : g.compile = .ok l) (hbody : l.body = .table flags table) :
    g.table = .ok table ∧ flags = g.scanFlags := by
  obtain ⟨table', ht, hbody', -⟩ := exists_table_of_compile hlexer hcompile
  obtain ⟨rfl, rfl⟩ := Lexer.Body.table.inj (hbody'.symm.trans hbody)
  exact ⟨ht, rfl⟩

/-- **A step in the root state,** where no rule opens a span, takes what is read there, whatever is
below the root state. -/
theorem step_of_plain? (ht : g.table = .ok table) (hr : table.ready g.scanFlags = .ok ready)
    (hrules : ∀ r ∈ g.rules, g.matchEnd? r.opening c = none) (h : g.plain? c = some (kind, d))
    (nested : Nested) (below : List String) :
    step ready nested ⟨c, rootState :: below⟩ =
      .ok (some ([.ofChars kind (c.upTo d)], ⟨d, rootState :: below⟩)) := by
  have hopening : g.opening? g.rules c = none :=
    List.findSome?_eq_none_iff.2 fun r hr => by rw [hrules r hr]; rfl
  have hnone : outcome? g.scanFlags (SpanRule.openingRules [] 0 g.rules) c = none := by
    obtain ⟨-, hnone⟩ | ⟨i, r, d, -, hsome, -⟩ := outcome?_openingRules (g := g) (c := c) [] 0 g.rules
    · exact hnone
    · rw [hopening] at hsome
      cases hsome
  have hall := outcome?_append g.scanFlags (SpanRule.openingRules [] 0 g.rules) (g.laterRules []) c
  rw [hnone, Option.none_or, laterRules, outcome?_rootRules, h] at hall
  exact step_token hr (lookup_stateName ht Chain.root) hall

/-- **A step in the root state where a word begins** and no rule opens a span makes one token of the
whole run of word characters, a keyword exactly if it is one of the grammar's. -/
theorem step_of_word (ht : g.table = .ok table) (hr : table.ready g.scanFlags = .ok ready)
    (hcase : g.caseInsensitive = false) (hwords : g.KeywordsAreWords) (h : c.BeginsWord)
    (hrules : ∀ r ∈ g.rules, g.matchEnd? r.opening c = none) (nested : Nested)
    (below : List String) :
    step ready nested ⟨c, rootState :: below⟩ =
      .ok (some ([.ofChars (g.wordKind c.word) c.word], ⟨c.skip isWord, rootState :: below⟩)) := by
  rw [step_of_plain? ht hr hrules (plain?_of_word hcase hwords h), Cursor.upTo_skip]
  rfl

end Step

end Grammar
end DocHighlighter
