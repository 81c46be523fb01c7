/-
# Keywords in either case

A grammar that ignores case finds keywords in two ways.  One with rules of its own looks for them by a
pattern that ignores case, so a keyword and a word are compared one character at a time.  One that
builds on a lexer compares their full foldings, and a character may be folded to several.

| keyword | word | by pattern | by folding |
|---|---|---|---|
| `api` | `API` | keyword | keyword |
| `straße` | `STRASSE` | text | keyword |
| `id` | `ıd` | keyword | name |

The first token that the rules make of a word on its own is the whole word (`plain?_alone`), so the
two ways can be compared word by word.  They agree about all words and keywords of steady characters,
and each other character makes them differ (`agreeAbout_iff`).
-/

import DocHighlighter.Proofs.Grammar.Keywords
import DocHighlighter.Proofs.Grammar.Spans
import DocHighlighter.Proofs.Grammar.Words
import DocHighlighter.Proofs.Text.Case
import DocHighlighter.Proofs.Text.Lines

namespace DocHighlighter

open Scanner
open Text (Cursor isWord isBlank sameIgnoringCase foldText IsSteady)

namespace Text

/-- Whether two words are the same for a pattern that ignores case. -/
def SameWord (k w : List Char) : Prop :=
  List.Forall₂ (fun a b => sameIgnoringCase a b = true) k w

theorem fold_eq_iff {k w : String} :
    fold k = fold w ↔ k.toList.flatMap foldText = w.toList.flatMap foldText :=
  String.ofList_inj

end Text

open Text (SameWord)

/-! ## Words by a pattern -/

namespace Pattern

variable {same : Char → Char → Bool} {w : List Char} {c d : Cursor}

/-- A text lies where its characters do, one by one. -/
theorem sameText_eq_some_iff_forall₂ : sameText same w c = some d ↔
    List.Forall₂ (fun a b => same a b = true) w (c.after.take w.length) ∧ d = c.past w.length := by
  induction w generalizing c with
  | nil =>
    rw [sameText, Option.some.injEq, List.length_nil, List.take_zero, Cursor.past]
    exact ⟨fun h => ⟨.nil, h.symm⟩, fun h => h.2.symm⟩
  | cons a w ih =>
    rw [sameText]
    cases hc : c.next? with
    | none => simp [Cursor.after_eq_nil_of_next? hc]
    | some next =>
      obtain ⟨b, e⟩ := next
      rw [Cursor.after_eq_of_next? hc, List.length_cons, List.take_succ_cons, List.forall₂_cons,
        Cursor.past_succ hc, and_assoc, ← ih]
      simp

end Pattern

namespace Grammar

/-- A word that is the whole of a text, as the lexers read it: with a newline behind it. -/
def alone (w : List Char) : Cursor :=
  Cursor.start (w ++ ['\n'])

variable {g h : Grammar} {w : List Char} {d : Cursor} {n : Nat}

theorem not_mem_of_isWord {a : Char} (hall : w.all isWord = true) (ha : isWord a = false) :
    a ∉ w := by
  intro hmem
  rw [List.all_eq_true.1 hall a hmem] at ha
  cases ha

/-- A word is prepared for scanning by a newline behind it. -/
theorem keepingLines_apply_word (hall : w.all isWord = true) :
    Preparation.keepingLines.apply w = w ++ ['\n'] := by
  have hmark : isWord '\ufeff' = false := by
    rw [Text.isWord_eq]
    decide +kernel
  rw [Preparation.keepingLines_apply,
    Text.withoutMark_of_head? fun h => not_mem_of_isWord hall hmark (List.mem_of_head? h),
    Text.unifyNewlines_of_not_mem (not_mem_of_isWord hall (Text.isWord_of_isBlank (by decide))),
    Text.endLine, if_neg fun h =>
      not_mem_of_isWord hall (Text.isWord_of_isBlank (by decide)) (List.mem_of_getLast? h)]

/-- Only behind the whole of a word there is a word edge. -/
theorem isWordEdge_alone (hall : w.all isWord = true) (hpos : 0 < n) (hle : n ≤ w.length + 1) :
    Pattern.isWordEdge g.scanFlags.ascii ((alone w).past n) = true ↔ n = w.length := by
  by_cases hn : n ≤ w.length
  · have hlies : w.take n <+: (alone w).after :=
      (List.take_prefix n w).trans (List.prefix_append w ['\n'])
    have hlength : (w.take n).length = n := List.length_take_of_le hn
    have hpiece : (w.take n).all isWord = true :=
      List.all_eq_true.2 fun a ha => List.all_eq_true.1 hall a (List.mem_of_mem_take ha)
    have hne : w.take n ≠ [] := List.ne_nil_of_length_pos (by omega)
    have hedge := isWordEdge_past (g := g) hne hpiece hlies
    rw [hlength] at hedge
    rw [hedge]
    have hafter : (alone w).after.drop n = w.drop n ++ ['\n'] := List.drop_append_of_le_length hn
    rw [hafter]
    cases hrest : w.drop n with
    | nil => exact iff_of_true (by decide) (Nat.le_antisymm hn (List.drop_eq_nil_iff.1 hrest))
    | cons a rest =>
      have ha : isWord a = true :=
        List.all_eq_true.1 hall a (List.mem_of_mem_drop (hrest ▸ List.mem_cons_self))
      refine iff_of_false (by simp [ha]) fun he => ?_
      rw [he, List.drop_length] at hrest
      cases hrest
  · -- Behind the newline the text is at its end.
    obtain rfl : n = w.length + 1 := by omega
    refine iff_of_false ?_ (by omega)
    show ¬ ((((alone w).past (w.length + 1)).before.head?.any isWord !=
      ((alone w).past (w.length + 1)).after.head?.any isWord) = true)
    rw [(Cursor.leadsTo_past _ _).before_eq, Cursor.upTo_past, Cursor.after_past]
    have htake : (alone w).after.take (w.length + 1) = w ++ ['\n'] :=
      List.take_of_length_le (by simp [alone, Cursor.start])
    have hdrop : (alone w).after.drop (w.length + 1) = [] :=
      List.drop_eq_nil_of_le (by simp [alone, Cursor.start])
    rw [htake, hdrop]
    simp [(by decide : isWord '\n' = false)]

theorem beginsWord_alone (hw : w ≠ []) (hall : w.all isWord = true) : (alone w).BeginsWord := by
  obtain ⟨a, rest, rfl⟩ := List.exists_cons_of_ne_nil hw
  exact ⟨rfl, (Bool.and_eq_true_iff.1 (List.all_cons ▸ hall)).1⟩

/-- **A word on its own is a keyword for a pattern that ignores case exactly if it is the same as it,**
character by character. -/
theorem wholeWordEnd?_alone {k : List Char} (hcase : g.caseInsensitive = true) (hk : k ≠ [])
    (hw : w ≠ []) (hall : w.all isWord = true) :
    Pattern.wholeWordEnd? g.scanFlags (alone w) k = some d ↔
      SameWord k w ∧ d = (alone w).past w.length := by
  have hedge : Pattern.isWordEdge g.scanFlags.ascii (alone w) = true := by
    have hbegins := beginsWord_alone hw hall
    show ((alone w).before.head?.any isWord != (alone w).after.head?.any isWord) = true
    rw [hbegins.before, hbegins.after]
    rfl
  have hsame : g.scanFlags.same = sameIgnoringCase := by
    funext a b
    simp [Pattern.Flags.same, scanFlags, hcase]
  have hpos : 0 < k.length := List.length_pos_iff.2 hk
  rw [Pattern.wholeWordEnd?, if_pos hedge, Option.filter_eq_some_iff,
    Pattern.sameText_eq_some_iff_forall₂, hsame]
  have htake : (alone w).after.take w.length = w := List.take_left
  constructor
  · rintro ⟨⟨hlies, rfl⟩, hend⟩
    have hlength := hlies.length_eq
    rw [List.length_take] at hlength
    have hle : k.length ≤ w.length + 1 := by
      have hafter : (alone w).after.length = w.length + 1 := by simp [alone, Cursor.start]
      omega
    have hsame := (isWordEdge_alone hall hpos hle).1 hend
    rw [hsame, htake] at hlies
    exact ⟨hlies, by rw [hsame]⟩
  · rintro ⟨hlies, rfl⟩
    have hlength := hlies.length_eq
    rw [hlength, htake]
    refine ⟨⟨hlies, rfl⟩, (isWordEdge_alone hall ?_ (Nat.le_succ _)).2 rfl⟩
    omega

/-- **Where a keyword is read** at a word on its own, it is the whole word. -/
theorem keywordEnd?_alone (hcase : g.caseInsensitive = true)
    (hkeywords : ∀ k ∈ g.keywords, k.toList ≠ []) (hw : w ≠ []) (hall : w.all isWord = true) :
    g.keywordEnd? (alone w) = some d ↔
      (∃ k ∈ g.keywords, SameWord k.toList w) ∧ d = (alone w).past w.length := by
  have hend : ∀ {e}, g.keywordEnd? (alone w) = some e →
      (∃ k ∈ g.keywords, SameWord k.toList w) ∧ e = (alone w).past w.length := by
    intro e he
    obtain ⟨v, hv, hlies⟩ := List.exists_of_findSome?_eq_some he
    obtain ⟨k, hk, rfl⟩ := List.mem_map.1 (Pattern.mem_inOrder.1 ((Pattern.mem_tryOrder _ _).1 hv))
    obtain ⟨hsame, rfl⟩ := (wholeWordEnd?_alone hcase (hkeywords k hk) hw hall).1 hlies
    exact ⟨⟨k, hk, hsame⟩, rfl⟩
  refine ⟨hend, ?_⟩
  rintro ⟨⟨k, hk, hsame⟩, rfl⟩
  have hlies := (wholeWordEnd?_alone hcase (hkeywords k hk) hw hall).2 ⟨hsame, rfl⟩
  obtain ⟨e, he⟩ := Option.isSome_iff_exists.1
    (isSome_keywordEnd?.2 ⟨k, hk, Option.isSome_iff_exists.2 ⟨_, hlies⟩⟩)
  rw [he, (hend he).2]

/-- **A word on its own is read as a whole,** and it is a keyword exactly if it is the same as one,
character by character. -/
theorem plain?_alone (hcase : g.caseInsensitive = true)
    (hkeywords : ∀ k ∈ g.keywords, k.toList ≠ []) (hw : w ≠ []) (hall : w.all isWord = true) :
    ∃ kind, g.plain? (alone w) = some (kind, (alone w).past w.length) ∧
      (kind = .keyword ↔ ∃ k ∈ g.keywords, SameWord k.toList w) := by
  have hend := fun d => keywordEnd?_alone (d := d) hcase hkeywords hw hall
  by_cases hex : ∃ k ∈ g.keywords, SameWord k.toList w
  · refine ⟨.keyword, ?_, iff_of_true rfl hex⟩
    rw [plain?, (hend _).2 ⟨hex, rfl⟩]
    rfl
  · refine ⟨.text, ?_, iff_of_false (by decide) hex⟩
    have hnone : g.keywordEnd? (alone w) = none :=
      Option.eq_none_iff_forall_ne_some.2 fun d hd => hex ((hend d).1 hd).1
    have hbegins := beginsWord_alone hw hall
    have hrun : (alone w).skip isWord = (alone w).past w.length := by
      have hwhile : (alone w).after.takeWhile isWord = w := by
        show (w ++ ['\n']).takeWhile isWord = w
        rw [List.takeWhile_append_of_pos (List.all_eq_true.1 hall), List.takeWhile_cons_of_neg
          (by decide), List.append_nil]
      rw [Cursor.skip, hwhile]
    rw [plain?, hnone, Cursor.runEnd?_eq_ite, Cursor.runEnd?_eq_ite, hbegins.not_blank,
      hbegins.after, hrun]
    rfl

/-! ## Both ways -/

/-- Keywords, and a word that may be one of them: all are runs of word characters, and not empty. -/
structure AreWords (keywords : List String) (w : List Char) : Prop where
  keywords : ∀ k ∈ keywords, k.toList ≠ [] ∧ k.toList.all isWord = true
  word : w ≠ [] ∧ w.all isWord = true

/-- Two grammars that ignore case have the given keywords: `g` has rules of its own, none of which
opens a span where the word `w` begins, and is ready to scan; `h` builds on a lexer. -/
structure BothWays (g h : Grammar) (keywords : List String) (w : List Char) (l : Lexer)
    (ready : ReadyTable) : Prop where
  ignore : g.caseInsensitive = true ∧ h.caseInsensitive = true
  keywords : ∀ k, (k ∈ g.keywords ↔ k ∈ keywords) ∧ (k ∈ h.keywords ↔ k ∈ keywords)
  rules : g.lexer = none ∧ ∀ r ∈ g.rules, g.matchEnd? r.opening (alone w) = none
  compile : g.compile = .ok l
  ready : ∃ table, l.body = .table g.scanFlags table ∧ table.ready g.scanFlags = .ok ready
  builds : h.lexer.isSome = true

/-- A scanner takes a word on its own for one token of a kind. -/
def TakesFor (ready : ReadyTable) (w : List Char) (kind : Kind) : Prop :=
  ∀ nested, step ready nested ⟨alone w, [rootState]⟩ =
    .ok (some ([.ofChars kind w], ⟨(alone w).past w.length, [rootState]⟩))

/-- Both ways agree about a word: the rules take it for a keyword exactly if a name with its text
becomes one. -/
def AgreeAbout (keywords : List String) (w : List Char) : Prop :=
  ∀ g h l ready, BothWays g h keywords w l ready →
    (TakesFor ready w .keyword ↔ h.retag .name (String.ofList w) = .keyword)

variable {keywords : List String} {l : Lexer} {ready : ReadyTable}

theorem TakesFor.unique {kind kind' : Kind} (h : TakesFor ready w kind)
    (h' : TakesFor ready w kind') : kind = kind' := by
  have hsame := (h fun _ _ => .ok []).symm.trans (h' fun _ _ => .ok [])
  injection hsame with hsame
  injection hsame with hsame
  injection hsame with htoken
  injection htoken with htoken
  exact congrArg Token.kind htoken

/-- **By the rules** a word on its own is the first token, and it is a keyword exactly if it is the
same as one, character by character. -/
theorem BothWays.takesFor (hboth : BothWays g h keywords w l ready) (hwords : AreWords keywords w) :
    ∃ kind, TakesFor ready w kind ∧
      (∀ tokens, l.tokensOf .keepingLines (String.ofList w) = .ok tokens →
        ∃ rest, tokens = .ofChars kind w :: rest) ∧
      (kind = .keyword ↔ ∃ k ∈ keywords, SameWord k.toList w) := by
  obtain ⟨table, hbody, hr⟩ := hboth.ready
  obtain ⟨ht, -⟩ := table_of_body hboth.rules.1 hboth.compile hbody
  obtain ⟨-, -, -, hretag⟩ := exists_table_of_compile hboth.rules.1 hboth.compile
  have hmem : ∀ {k}, k ∈ g.keywords ↔ k ∈ keywords := fun {k} => (hboth.keywords k).1
  obtain ⟨kind, hplain, hkind⟩ := plain?_alone hboth.ignore.1
    (fun k hk => (hwords.keywords k (hmem.1 hk)).1) hwords.word.1 hwords.word.2
  have hupTo : (alone w).upTo ((alone w).past w.length) = w :=
    (Cursor.upTo_past _ _).trans List.take_left
  refine ⟨kind, fun nested => ?_, fun tokens htokens => ?_, by simpa only [hmem] using hkind⟩
  · rw [step_of_plain? ht hr hboth.rules.2 hplain nested [], hupTo]
  · have hopening : g.opening? g.rules (alone w) = none :=
      List.findSome?_eq_none_iff.2 fun r hr => by rw [hboth.rules.2 r hr]; rfl
    have hread : g.read? ⟨alone w, []⟩ = some ([.ofChars kind w], ⟨(alone w).past w.length, []⟩) := by
      rw [read?_of_root hopening, hplain, Option.map_some, hupTo]
    rw [Lexer.tokensOf, String.toList_ofList, keepingLines_apply_word hwords.word.2,
      Lexer.tokens_of_ready hbody hretag hr] at htokens
    have hall : g.Reads (w ++ ['\n']) tokens := by
      refine (scan_eq_ok_iff ht hr).1 ?_
      cases hscan : scan ready (w ++ ['\n']) with
      | error fault => rw [hscan] at htokens; cases htokens
      | ok found => rw [hscan] at htokens; rw [Except.ok.inj htokens]
    obtain ⟨rest, hrest, -⟩ := (ReadsTo.next hread (.refl _)).exists_rest hall
    exact ⟨rest, hrest⟩

/-- **By the lexer** a name becomes a keyword exactly if it has the full folding of one. -/
theorem BothWays.retag_eq_keyword_iff (hboth : BothWays g h keywords w l ready) :
    h.retag .name (String.ofList w) = .keyword ↔
      ∃ k ∈ keywords, k.toList.flatMap foldText = w.flatMap foldText := by
  have hmem : ∀ {k}, k ∈ h.keywords ↔ k ∈ keywords := fun {k} => (hboth.keywords k).2
  have hfold : ∀ {k}, h.foldWord k = h.foldWord (String.ofList w) ↔
      k.toList.flatMap foldText = w.flatMap foldText := by
    intro k
    rw [foldWord, foldWord, if_pos hboth.ignore.2, if_pos hboth.ignore.2, Text.fold_eq_iff,
      String.toList_ofList]
  obtain ⟨-, hex, hkind⟩ | ⟨hno, hkind⟩ := h.retag_eq .name (String.ofList w)
  · exact iff_of_true hkind (by simpa only [hmem, hfold] using hex)
  · refine iff_of_false (by rw [hkind]; decide) fun hex => hno ⟨by decide, ?_⟩
    simpa only [hmem, hfold] using hex

/-- Where both ways go, they agree exactly if comparing by characters and by foldings does. -/
theorem BothWays.agree_iff (hboth : BothWays g h keywords w l ready)
    (hwords : AreWords keywords w) :
    (TakesFor ready w .keyword ↔ h.retag .name (String.ofList w) = .keyword) ↔
      ((∃ k ∈ keywords, SameWord k.toList w) ↔
        ∃ k ∈ keywords, k.toList.flatMap foldText = w.flatMap foldText) := by
  obtain ⟨kind, htakes, -, hkind⟩ := hboth.takesFor hwords
  have hkeyword : TakesFor ready w .keyword ↔ kind = .keyword :=
    ⟨fun h => htakes.unique h, fun h => h ▸ htakes⟩
  rw [hkeyword, hkind, hboth.retag_eq_keyword_iff]

/-- A grammar that ignores case, with keywords and no rules. -/
def ofKeywords (keywords : List String) : Grammar where
  name := "keywords"
  displayName := "Keywords"
  caseInsensitive := true
  keywords := keywords

theorem allRules_ofKeywords (keywords : List String) : (ofKeywords keywords).allRules = [] := by
  simp [ofKeywords, allRules, SpanRule.allOf]

/-- Nothing is wrong with the rules of such a grammar. -/
theorem sound_ofKeywords (keywords : List String) :
    (ofKeywords keywords).TagsKnown ∧ (ofKeywords keywords).PatternsRead :=
  ⟨fun _ hr => absurd (allRules_ofKeywords keywords ▸ hr) List.not_mem_nil,
    fun _ hr => absurd (allRules_ofKeywords keywords ▸ hr) List.not_mem_nil⟩

/-- Any keywords are those of two such grammars. -/
theorem exists_bothWays (keywords : List String) (w : List Char) : ∃ l ready,
    BothWays (ofKeywords keywords) { ofKeywords keywords with lexer := some .javascript } keywords w
      l ready := by
  obtain ⟨htags, hread⟩ := sound_ofKeywords keywords
  obtain ⟨table, ready, ht, hr, -⟩ := exists_ready htags hread
  obtain ⟨l, hl, hbody, -⟩ := exists_ruleLexer (g := ofKeywords keywords) rfl ht
  exact ⟨l, ready, ⟨⟨rfl, rfl⟩, fun k => ⟨Iff.rfl, Iff.rfl⟩, ⟨rfl, by simp [ofKeywords]⟩, hl,
    ⟨table, hbody, hr⟩, rfl⟩⟩

/-- The two ways agree about a word exactly if it is the same as a keyword, character by character,
whenever it is folded as one, and the other way round. -/
theorem agreeAbout_iff_same (hwords : AreWords keywords w) : AgreeAbout keywords w ↔
    ((∃ k ∈ keywords, SameWord k.toList w) ↔
      ∃ k ∈ keywords, k.toList.flatMap foldText = w.flatMap foldText) := by
  obtain ⟨l, ready, hboth⟩ := exists_bothWays keywords w
  exact ⟨fun hagree => (hboth.agree_iff hwords).1 (hagree _ _ _ _ hboth),
    fun h _ _ _ _ hboth => (hboth.agree_iff hwords).2 h⟩

/-- About words of steady characters they agree. -/
theorem agreeAbout_of_isSteady (hwords : AreWords keywords w)
    (hkeywords : ∀ k ∈ keywords, ∀ d ∈ k.toList, IsSteady d) (hw : ∀ d ∈ w, IsSteady d) :
    AgreeAbout keywords w := by
  refine (agreeAbout_iff_same hwords).2 (exists_congr fun k => and_congr_right fun hk => ?_)
  refine (Text.flatMap_foldText_eq_iff (fun d hd => ?_) fun d hd => ?_).symm
  · exact ⟨List.all_eq_true.1 (hwords.keywords k hk).2 d hd, hkeywords k hk d hd⟩
  · exact ⟨List.all_eq_true.1 hwords.word.2 d hd, hw d hd⟩

/-- For one keyword only that one is looked at. -/
theorem agreeAbout_singleton_iff {k : List Char} (hwords : AreWords [String.ofList k] w) :
    AgreeAbout [String.ofList k] w ↔
      (SameWord k w ↔ k.flatMap foldText = w.flatMap foldText) := by
  simpa using agreeAbout_iff_same hwords

theorem isWord_sharpS : isWord '\u00df' = true := by
  rw [Text.isWord_eq]
  decide +kernel

/-- A character that is not steady makes a keyword and a word that they do not agree about. -/
theorem exists_not_agreeAbout {c : Char} (hc : isWord c = true) (hsteady : ¬ IsSteady c) :
    ∃ keywords w, AreWords keywords w ∧ (∀ k ∈ keywords, ∀ d ∈ k.toList, IsSteady d ∨ d = c) ∧
      (∀ d ∈ w, IsSteady d ∨ d = c) ∧ ¬ AgreeAbout keywords w := by
  obtain ⟨k, w, hk, hw, hchars, hdiffer⟩ := Text.exists_of_not_isSteady hc hsteady
  obtain ⟨hkeyword, hword⟩ := List.forall_mem_append.1 hchars
  have hwords : AreWords [String.ofList k] w := by
    refine ⟨fun k' hk' => ?_, hw, List.all_eq_true.2 fun d hd => (hword d hd).1⟩
    rw [List.mem_singleton.1 hk', String.toList_ofList]
    exact ⟨hk, List.all_eq_true.2 fun d hd => (hkeyword d hd).1⟩
  refine ⟨[String.ofList k], w, hwords, fun k' hk' d hd => ?_, fun d hd => (hword d hd).2,
    fun hagree => hdiffer ((agreeAbout_singleton_iff hwords).1 hagree)⟩
  rw [List.mem_singleton.1 hk', String.toList_ofList] at hd
  exact (hkeyword d hd).2

/-- **When the two ways agree.**  The rules take a word on its own for one token, a keyword exactly if
it is the same as one character by character; a lexer's name becomes a keyword exactly if it is folded
as one is.  So the two ways agree about the word exactly if that comes to the same.  It does for all
keywords and words of steady characters, and with any other word character beside those it does not
always. -/
theorem agreeAbout_iff {keywords : List String} {w : List Char} (hwords : AreWords keywords w) :
    (∀ {g h : Grammar} {l : Lexer} {ready : ReadyTable}, BothWays g h keywords w l ready →
      (∃ kind, TakesFor ready w kind ∧
        (∀ tokens, l.tokensOf .keepingLines (String.ofList w) = .ok tokens →
          ∃ rest, tokens = .ofChars kind w :: rest) ∧
        (g.TagsKnown → g.PatternsRead → g.OpeningsTake →
          ∃ tokens, l.tokensOf .keepingLines (String.ofList w) = .ok tokens) ∧
        (kind = .keyword ↔ ∃ k ∈ keywords, SameWord k.toList w)) ∧
      (h.retag .name (String.ofList w) = .keyword ↔
        ∃ k ∈ keywords, k.toList.flatMap foldText = w.flatMap foldText)) ∧
    (AgreeAbout keywords w ↔ ((∃ k ∈ keywords, SameWord k.toList w) ↔
      ∃ k ∈ keywords, k.toList.flatMap foldText = w.flatMap foldText)) ∧
    ((∀ k ∈ keywords, ∀ d ∈ k.toList, IsSteady d) → (∀ d ∈ w, IsSteady d) →
      AgreeAbout keywords w) ∧
    ∀ c, isWord c = true → ¬ IsSteady c → ∃ keywords w, AreWords keywords w ∧
      (∀ k ∈ keywords, ∀ d ∈ k.toList, IsSteady d ∨ d = c) ∧ (∀ d ∈ w, IsSteady d ∨ d = c) ∧
        ¬ AgreeAbout keywords w := by
  refine ⟨fun {g h l ready} hboth => ⟨?_, hboth.retag_eq_keyword_iff⟩, agreeAbout_iff_same hwords,
    agreeAbout_of_isSteady hwords, fun c => exists_not_agreeAbout⟩
  obtain ⟨kind, htakes, hrest, hkind⟩ := hboth.takesFor hwords
  refine ⟨kind, htakes, hrest, fun htags hread hopen => ?_, hkind⟩
  obtain ⟨l', hcompile, hall⟩ := exists_reads hboth.rules.1 htags hread hopen
  obtain rfl := Except.ok.inj (hboth.compile.symm.trans hcompile)
  obtain ⟨tokens, htokens, -⟩ := hall (Preparation.keepingLines.apply (String.ofList w).toList)
  exact ⟨tokens, htokens⟩

/-- Grammars with the keyword `api` tag `API`, either way; and with `ß` beside steady characters there
are keywords and words that the ways do not agree about. -/
theorem agreeAbout_iff_api :
    (∃ l ready,
      BothWays (ofKeywords ["api"]) { ofKeywords ["api"] with lexer := some .javascript } ["api"]
        ['A', 'P', 'I'] l ready ∧
      TakesFor ready ['A', 'P', 'I'] .keyword ∧
      (∃ rest, l.tokensOf .keepingLines "API" = .ok (⟨.keyword, "API"⟩ :: rest)) ∧
      retag { ofKeywords ["api"] with lexer := some .javascript } .name "API" = .keyword) ∧
    AgreeAbout ["api"] ['A', 'P', 'I'] ∧
    ∃ keywords w, AreWords keywords w ∧
      (∀ k ∈ keywords, ∀ d ∈ k.toList, IsSteady d ∨ d = '\u00df') ∧
        (∀ d ∈ w, IsSteady d ∨ d = '\u00df') ∧ ¬ AgreeAbout keywords w := by
  have hwords : AreWords ["api"] ['A', 'P', 'I'] := ⟨by simp; decide, by decide, by decide⟩
  have hsame : ∃ k ∈ ["api"], SameWord k.toList ['A', 'P', 'I'] :=
    ⟨"api", List.mem_singleton.2 rfl, .cons (by decide) (.cons (by decide) (.cons (by decide) .nil))⟩
  have hfold : ∃ k ∈ ["api"], k.toList.flatMap foldText = ['A', 'P', 'I'].flatMap foldText :=
    ⟨"api", List.mem_singleton.2 rfl, by decide⟩
  obtain ⟨hways, hagree, -, hsharp⟩ := agreeAbout_iff hwords
  refine ⟨?_, hagree.2 (iff_of_true hsame hfold), hsharp '\u00df' isWord_sharpS fun hsteady => ?_⟩
  · obtain ⟨l, ready, hboth⟩ := exists_bothWays ["api"] ['A', 'P', 'I']
    obtain ⟨⟨kind, htakes, hrest, htokens, hkind⟩, hretag⟩ := hways hboth
    obtain rfl := hkind.2 hsame
    obtain ⟨htags, hread⟩ := sound_ofKeywords ["api"]
    have hopen : (ofKeywords ["api"]).OpeningsTake :=
      ⟨fun _ hr => absurd (allRules_ofKeywords ["api"] ▸ hr) List.not_mem_nil, by decide⟩
    obtain ⟨tokens, hok⟩ := htokens htags hread hopen
    obtain ⟨rest, rfl⟩ := hrest tokens hok
    exact ⟨l, ready, hboth, htakes, ⟨rest, hok⟩, hretag.2 hfold⟩
  · exact absurd (hsteady.tail 's' (by decide)) (by decide)

/-- **The two ways do not always agree:** `STRASSE` is folded as the keyword `straße` is, and has one
character more. -/
theorem not_forall_agreeAbout : ¬ ∀ keywords w, keywords ≠ [] → AreWords keywords w →
    AgreeAbout keywords w := by
  intro hagree
  let k : List Char := ['s', 't', 'r', 'a', '\u00df', 'e']
  let w : List Char := ['S', 'T', 'R', 'A', 'S', 'S', 'E']
  have hwords : AreWords [String.ofList k] w := by
    refine ⟨fun k' hk' => ?_, by decide, by decide⟩
    rw [List.mem_singleton.1 hk', String.toList_ofList]
    refine ⟨List.cons_ne_nil _ _, ?_⟩
    simp only [k, List.all_cons, isWord_sharpS]
    decide
  have hiff := (agreeAbout_singleton_iff hwords).1 (hagree _ _ (List.cons_ne_nil _ _) hwords)
  have hfold : k.flatMap foldText = w.flatMap foldText := by decide
  exact absurd (hiff.2 hfold).length_eq (by decide)

end Grammar
end DocHighlighter
