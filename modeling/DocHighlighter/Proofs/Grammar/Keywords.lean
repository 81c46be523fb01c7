/-
# Keywords change the vocabulary only

A grammar that builds on a ready-made lexer retags tokens: names that are among its
keywords become keywords (`Grammar.Retags`).  What the lexer it builds on, the lexer of
the grammar and the lexer of a grammar with more keywords give for a text then have the
same places and texts (`ChangesVocabularyOnly`).

There is one exception.  A lexer with keywords cannot begin a nested scan at a further
state than the root, so where the lexer it builds on asks for one
(`Lexer.AsksForState`), as those of C and C++ do between the parts of a function's
beginning, there are no tokens.  Every ready-made lexer itself gives tokens for every text.

| statement | says |
|---|---|
| `Grammar.placedTokens_lexerOn` | without such a nested scan tokens are retagged, with one there are none |
| `Grammar.changesVocabularyOnly_iff` | so the vocabulary is all that changes exactly if none is asked for |
| `ReadyMade.asksForState_declaration` | the lexer of C asks for one where a function is declared |
-/

import DocHighlighter.Proofs.Engine.Full
import DocHighlighter.Proofs.Language.Idl
import DocHighlighter.Proofs.Lexer.ReadyMade

namespace DocHighlighter

open Scanner (rootState)

/-! ## What keywords change -/

namespace Grammar

/-- A grammar and one that has further keywords, and is otherwise the same where its lexer is
concerned. -/
structure AddsKeywords (g : Grammar) (added : List String) (g' : Grammar) : Prop where
  lexer : g'.lexer = g.lexer
  fold : g'.caseInsensitive = g.caseInsensitive
  keywords : ∀ w, w ∈ g'.keywords ↔ w ∈ g.keywords ∨ w ∈ added

/-- A token of the lexer that a grammar builds on, and what becomes of it. -/
structure Retags (g : Grammar) (base new : PlacedToken) : Prop where
  place : new.place = base.place
  text : new.token.text = base.token.text
  differs : new.token.kind ≠ base.token.kind ↔
    base.token.kind.isWithin .name ∧ ¬ base.token.kind.isWithin .nameVariable ∧
      ∃ w ∈ g.keywords, g.foldWord w = g.foldWord base.token.text
  keyword : new.token.kind ≠ base.token.kind → new.token.kind = .keyword

/-- A token of the lexer of a grammar, and what becomes of it with further keywords. -/
structure Gains (g : Grammar) (added : List String) (old new : PlacedToken) : Prop where
  place : new.place = old.place
  text : new.token.text = old.token.text
  kept : old.token.kind = .keyword → new.token.kind = .keyword
  differs : new.token.kind ≠ old.token.kind ↔
    old.token.kind.isWithin .name ∧ ¬ old.token.kind.isWithin .nameVariable ∧
      ∃ w ∈ added, g.foldWord w = g.foldWord old.token.text
  keyword : new.token.kind ≠ old.token.kind → new.token.kind = .keyword

/-- A token once the names among a grammar's keywords are known. -/
def retagToken (g : Grammar) (p : PlacedToken) : PlacedToken :=
  { p with token := { p.token with kind := g.retag p.token.kind p.token.text } }

/-- The lexer of a grammar that builds on the given one. -/
def lexerOn (g : Grammar) (base : Lexer) : Lexer :=
  if g.keywords.isEmpty then base else g.keywordLexer base

variable {g g' : Grammar} {added : List String} {base : Lexer} {text : List Char}

theorem compile_eq_lexerOn {r : ReadyMade} (h : g.lexer = some r) :
    g.compile = .ok (g.lexerOn r.lexer) := by
  rw [compile, h]
  rfl

theorem lexerOn_of_nil (h : g.keywords = []) : g.lexerOn base = base := by
  rw [lexerOn, h]
  rfl

theorem lexerOn_of_ne_nil (h : g.keywords ≠ []) : g.lexerOn base = g.keywordLexer base := by
  rw [lexerOn, if_neg (by simpa using h)]

theorem canBeKeyword_iff (k : Kind) :
    k.canBeKeyword = true ↔ k.isWithin .name ∧ ¬ k.isWithin .nameVariable := by
  simp [Kind.canBeKeyword]

/-- A kind that can become a keyword is none yet. -/
theorem ne_keyword_of_canBeKeyword {k : Kind} (h : k.canBeKeyword = true) : k ≠ .keyword := by
  rintro rfl
  exact absurd h (by decide)

/-- Whether a token becomes a keyword. -/
theorem retag_eq (kind : Kind) (word : String) :
    (kind.canBeKeyword = true ∧ (∃ w ∈ g.keywords, g.foldWord w = g.foldWord word) ∧
      g.retag kind word = .keyword) ∨
    (¬ (kind.canBeKeyword = true ∧ ∃ w ∈ g.keywords, g.foldWord w = g.foldWord word) ∧
      g.retag kind word = kind) := by
  have hmem : (g.keywords.map g.foldWord).contains (g.foldWord word) = true ↔
      ∃ w ∈ g.keywords, g.foldWord w = g.foldWord word := by
    rw [List.contains_iff_mem, List.mem_map]
  unfold retag
  split
  · next h =>
    obtain ⟨hkind, hword⟩ := Bool.and_eq_true_iff.1 h
    exact .inl ⟨hkind, hmem.1 hword, rfl⟩
  · next h =>
    exact .inr ⟨fun hboth => h (Bool.and_eq_true_iff.2 ⟨hboth.1, hmem.2 hboth.2⟩), rfl⟩

theorem retags_retagToken (p : PlacedToken) : g.Retags p (g.retagToken p) := by
  refine ⟨rfl, rfl, ?_, ?_⟩
  · rw [← and_assoc, ← canBeKeyword_iff]
    change g.retag p.token.kind p.token.text ≠ p.token.kind ↔ _
    rcases g.retag_eq p.token.kind p.token.text with ⟨hkind, hword, hnew⟩ | ⟨hnot, hnew⟩
    · rw [hnew]
      exact iff_of_true (ne_keyword_of_canBeKeyword hkind).symm ⟨hkind, hword⟩
    · rw [hnew]
      exact iff_of_false (not_not.2 rfl) hnot
  · intro hdiffers
    rcases g.retag_eq p.token.kind p.token.text with ⟨-, -, hnew⟩ | ⟨-, hnew⟩
    · exact hnew
    · exact absurd hnew hdiffers

/-- Without keywords tokens stay what they are. -/
theorem retagToken_of_nil (h : g.keywords = []) (p : PlacedToken) : g.retagToken p = p := by
  have hkind : g.retag p.token.kind p.token.text = p.token.kind := by
    simp [retag, h]
  rw [retagToken, hkind]

/-- Words that the grammar takes for the same are the same to one with further keywords. -/
theorem AddsKeywords.foldWord (h : g.AddsKeywords added g') : g'.foldWord = g.foldWord := by
  funext word
  rw [Grammar.foldWord, Grammar.foldWord, h.fold]

/-- What is a keyword stays one when there are more of them. -/
theorem AddsKeywords.keyword (h : g.AddsKeywords added g') {p : PlacedToken}
    (hp : (g.retagToken p).token.kind = .keyword) :
    (g'.retagToken p).token.kind = .keyword := by
  change g.retag p.token.kind p.token.text = .keyword at hp
  change g'.retag p.token.kind p.token.text = .keyword
  rcases g'.retag_eq p.token.kind p.token.text with ⟨-, -, hnew⟩ | ⟨hnot, hnew⟩
  · exact hnew
  · rcases g.retag_eq p.token.kind p.token.text with ⟨hkind, ⟨w, hw, hword⟩, -⟩ | ⟨-, hold⟩
    · exact absurd ⟨hkind, w, (h.keywords w).2 (.inl hw), by rw [h.foldWord, hword]⟩ hnot
    · exact hnew.trans (hold.symm.trans hp)

end Grammar

namespace Grammar

variable {g g' : Grammar} {added : List String}

/-- A token that further keywords change is one that they make a keyword. -/
theorem AddsKeywords.gains (h : g.AddsKeywords added g') (p : PlacedToken) :
    g.Gains added (g.retagToken p) (g'.retagToken p) := by
  refine ⟨rfl, rfl, h.keyword, ?_, fun hdiffers => ?_⟩
  · rw [← and_assoc, ← canBeKeyword_iff]
    change g'.retag p.token.kind p.token.text ≠ g.retag p.token.kind p.token.text ↔
      (g.retag p.token.kind p.token.text).canBeKeyword = true ∧
        ∃ w ∈ added, g.foldWord w = g.foldWord p.token.text
    rcases g.retag_eq p.token.kind p.token.text with ⟨hkind, ⟨w, hw, hword⟩, hold⟩ | ⟨hnot, hold⟩
    · have hnew := h.keyword (p := p) hold
      change g'.retag p.token.kind p.token.text = .keyword at hnew
      rw [hold, hnew]
      exact iff_of_false (not_not.2 rfl) fun hboth => absurd hboth.1 (by decide)
    · rw [hold]
      rcases g'.retag_eq p.token.kind p.token.text with ⟨hkind, ⟨w, hw, hword⟩, hnew⟩ | ⟨hnot', hnew⟩
      · rw [hnew]
        rw [h.foldWord] at hword
        refine iff_of_true (ne_keyword_of_canBeKeyword hkind).symm ⟨hkind, w, ?_, hword⟩
        rcases (h.keywords w).1 hw with hw | hw
        · exact absurd ⟨hkind, w, hw, hword⟩ hnot
        · exact hw
      · rw [hnew]
        refine iff_of_false (not_not.2 rfl) ?_
        rintro ⟨hkind, w, hw, hword⟩
        exact hnot' ⟨hkind, w, (h.keywords w).2 (.inr hw), by rw [h.foldWord, hword]⟩
  · change g'.retag p.token.kind p.token.text ≠ g.retag p.token.kind p.token.text at hdiffers
    change g'.retag p.token.kind p.token.text = .keyword
    rcases g'.retag_eq p.token.kind p.token.text with ⟨-, -, hnew⟩ | ⟨-, hnew⟩
    · exact hnew
    · rcases g.retag_eq p.token.kind p.token.text with ⟨-, -, hold⟩ | ⟨-, hold⟩
      · exact h.keyword (p := p) hold
      · exact absurd (hnew.trans hold.symm) hdiffers

end Grammar

/-! ## The scan that is retagged -/

/-- The scan of a text by a lexer asks for a nested scan from a further state than the root. -/
def Lexer.AsksForState (l : Lexer) (text : List Char) : Prop :=
  ∃ flags table ready, l.body = .table flags table ∧ table.ready flags = .ok ready ∧
    ready.AsksForState text

/-- Where the tokens of a text come from. -/
theorem Lexer.exists_scan {l : Lexer} {text : List Char} {ps : List PlacedToken}
    (h : l.placedTokens text = .ok ps) :
    ∃ plain : List PlacedToken,
      ps = plain.map (fun p => { p with token := { p.token with kind := l.retag p.token } }) ∧
      ((l.body = .json ∧ plain = PlacedToken.inARow 0 (Json.scan text)) ∨
        ∃ flags table ready, l.body = .table flags table ∧ table.ready flags = .ok ready ∧
          Scanner.placedScan ready text = .ok plain) := by
  unfold Lexer.placedTokens at h
  cases hbody : l.body with
  | json =>
    rw [hbody] at h
    exact ⟨_, (Except.ok.inj h).symm, .inl ⟨rfl, rfl⟩⟩
  | table flags table =>
    simp only [hbody] at h
    cases hready : table.ready flags with
    | error fault => simp [hready, bind, Except.bind] at h
    | ok ready =>
      simp only [hready] at h
      cases hscan : Scanner.placedScan ready text with
      | error fault => simp [hscan, bind, Except.bind] at h
      | ok plain =>
        simp only [hscan] at h
        exact ⟨plain, (Except.ok.inj h).symm, .inr ⟨flags, table, ready, rfl, hready, hscan⟩⟩

theorem Lexer.placedTokens_of_scan {l : Lexer} {flags : Pattern.Flags} {table : Scanner.Table}
    {ready : Scanner.ReadyTable} (hbody : l.body = .table flags table)
    (hready : table.ready flags = .ok ready) (text : List Char) :
    l.placedTokens text = ((Scanner.placedScan ready text).mapError .scan).map (List.map
      fun p => { p with token := { p.token with kind := l.retag p.token } }) := by
  unfold Lexer.placedTokens
  rw [hbody]
  dsimp only
  rw [hready]
  dsimp only
  cases Scanner.placedScan ready text <;> rfl

namespace Grammar

variable {g g' : Grammar} {added : List String} {base : Lexer} {text : List Char}
  {ps : List PlacedToken}

theorem placedTokens_keywordLexer (h : base.placedTokens text = .ok ps) :
    (¬ base.AsksForState text ∧
      (g.keywordLexer base).placedTokens text = .ok (ps.map g.retagToken)) ∨
    (base.AsksForState text ∧
      (g.keywordLexer base).placedTokens text = .error (.scan .nestedState)) := by
  obtain ⟨plain, rfl, ⟨hbody, rfl⟩ | ⟨flags, table, ready, hbody, hready, hscan⟩⟩ :=
    Lexer.exists_scan h
  · left
    refine ⟨?_, ?_⟩
    · rintro ⟨flags, table, -, htable, -⟩
      cases hbody.symm.trans htable
    · have hnew : (g.keywordLexer base).body = .json := by
        simp only [keywordLexer, hbody]
      rw [Lexer.placedTokens, hnew, List.map_map]
      rfl
  · have hnew : (g.keywordLexer base).body = .table flags (DocHighlighter.rootOnly table) := by
      simp only [keywordLexer, hbody]
    have hreadyNew : (DocHighlighter.rootOnly table).ready flags = .ok ready.rootOnly := by
      rw [Scanner.Table.ready_rootOnly, hready]
      rfl
    have hasks : base.AsksForState text ↔ ready.AsksForState text := by
      refine ⟨?_, fun h => ⟨flags, table, ready, hbody, hready, h⟩⟩
      rintro ⟨flags', table', ready', hbody', hready', h⟩
      obtain ⟨rfl, rfl⟩ := Lexer.Body.table.inj (hbody.symm.trans hbody')
      obtain rfl := Except.ok.inj (hready.symm.trans hready')
      exact h
    rw [hasks, Lexer.placedTokens_of_scan hnew hreadyNew, List.map_map]
    rcases Scanner.placedScan_rootOnly hscan with ⟨hnot, hsame⟩ | ⟨h, hends⟩
    · exact .inl ⟨hnot, by rw [hsame]; rfl⟩
    · exact .inr ⟨h, by rw [hends]; rfl⟩

/-- The tokens of a text by the lexer of a grammar are those of the lexer it builds on, retagged,
unless it has keywords and that one asks for a further state. -/
theorem placedTokens_lexerOn (h : base.placedTokens text = .ok ps) :
    ((g.keywords = [] ∨ ¬ base.AsksForState text) ∧
      (g.lexerOn base).placedTokens text = .ok (ps.map g.retagToken)) ∨
    (g.keywords ≠ [] ∧ base.AsksForState text ∧
      (g.lexerOn base).placedTokens text = .error (.scan .nestedState)) := by
  by_cases hkeywords : g.keywords = []
  · left
    have hsame : ps.map g.retagToken = ps :=
      (List.map_congr_left fun p _ => retagToken_of_nil hkeywords p).trans (List.map_id ps)
    rw [lexerOn_of_nil hkeywords, hsame]
    exact ⟨.inl hkeywords, h⟩
  · rw [lexerOn_of_ne_nil hkeywords]
    rcases placedTokens_keywordLexer (g := g) h with ⟨hnot, hnew⟩ | ⟨hasks, hnew⟩
    · exact .inl ⟨.inr hnot, hnew⟩
    · exact .inr ⟨hkeywords, hasks, hnew⟩

end Grammar

/-- Two scans give tokens that are related one by one. -/
def Tokenwise (related : PlacedToken → PlacedToken → Prop)
    (scan scan' : Except LexFault (List PlacedToken)) : Prop :=
  ∃ ps qs, scan = .ok ps ∧ scan' = .ok qs ∧ List.Forall₂ related ps qs

theorem tokenwise_map {related : PlacedToken → PlacedToken → Prop} {f f' : PlacedToken → PlacedToken}
    (h : ∀ p, related (f p) (f' p)) (ps : List PlacedToken) :
    Tokenwise related (.ok (ps.map f)) (.ok (ps.map f')) := by
  refine ⟨_, _, rfl, rfl, ?_⟩
  rw [List.forall₂_map_left_iff, List.forall₂_map_right_iff]
  exact List.forall₂_same.2 fun p _ => h p

/-- For a text, the lexer of a grammar and that of a grammar with further keywords change what the
lexer they build on gives in nothing but which names are keywords. -/
structure ChangesVocabularyOnly (g : Grammar) (added : List String) (g' : Grammar)
    (base l l' : Lexer) (text : List Char) : Prop where
  own : Tokenwise g.Retags (base.placedTokens text) (l.placedTokens text)
  derived : Tokenwise g'.Retags (base.placedTokens text) (l'.placedTokens text)
  gains : Tokenwise (g.Gains added) (l.placedTokens text) (l'.placedTokens text)

namespace Grammar

variable {g g' : Grammar} {added : List String} {base : Lexer} {text : List Char}
  {ps : List PlacedToken}

/-- **Further keywords change the vocabulary only,** exactly if there are none or no nested scan is
asked for from a further state. -/
theorem changesVocabularyOnly_lexerOn (h : g.AddsKeywords added g')
    (hbase : base.placedTokens text = .ok ps) :
    ChangesVocabularyOnly g added g' base (g.lexerOn base) (g'.lexerOn base) text ↔
      g'.keywords = [] ∨ ¬ base.AsksForState text := by
  have hnil : g'.keywords = [] → g.keywords = [] := fun hnone =>
    List.eq_nil_iff_forall_not_mem.2 fun w hw =>
      List.eq_nil_iff_forall_not_mem.1 hnone w ((h.keywords w).2 (.inl hw))
  rcases placedTokens_lexerOn (g := g') hbase with ⟨hwhen', hnew'⟩ | ⟨hsome', hasks, hends⟩
  · have hwhen : g.keywords = [] ∨ ¬ base.AsksForState text := hwhen'.imp_left hnil
    rcases placedTokens_lexerOn (g := g) hbase with ⟨-, hnew⟩ | ⟨hsome, hasks, -⟩
    · refine iff_of_true ⟨?_, ?_, ?_⟩ hwhen'
      · rw [hbase, hnew]
        simpa using tokenwise_map (f := id) g.retags_retagToken ps
      · rw [hbase, hnew']
        simpa using tokenwise_map (f := id) g'.retags_retagToken ps
      · rw [hnew, hnew']
        exact tokenwise_map h.gains ps
    · exact absurd hwhen (not_or.2 ⟨hsome, not_not.2 hasks⟩)
  · refine iff_of_false (fun hchanges => ?_) (not_or.2 ⟨hsome', not_not.2 hasks⟩)
    obtain ⟨-, qs, -, hqs, -⟩ := hchanges.derived
    cases hends.symm.trans hqs

end Grammar

/-! ## The ready-made lexers -/

/-- Only the lexers of C and C++ ask for further states. -/
theorem ReadyMade.not_asksForState {r : ReadyMade} (hc : r ≠ .c) (hcpp : r ≠ .cpp)
    (text : List Char) : ¬ r.lexer.AsksForState text := by
  rintro ⟨flags, table, ready, hbody, hready, hasks⟩
  have hsame : DocHighlighter.rootOnly table = table := by
    cases r with
    | c => exact absurd rfl hc
    | cpp => exact absurd rfl hcpp
    | json => cases hbody
    | cmake => cases hbody; rfl
    | javascript => cases hbody; rfl
    | bash => cases hbody; rfl
  have hstays : ready.rootOnly = ready := by
    have hnew := Scanner.Table.ready_rootOnly flags table
    rw [hsame, hready] at hnew
    exact (Except.ok.inj hnew).symm
  exact Scanner.ReadyTable.not_asksForState hstays text hasks

/-- The derived CMake grammar has one keyword more. -/
theorem Language.addsKeywords_cmakeExt :
    (ofReadyMade .cmake).AddsKeywords ["idlc_compile"] cmakeExt := by
  refine ⟨rfl, rfl, fun w => ?_⟩
  rw [cmakeExt, Grammar.mem_wordSet, List.mem_cons, List.mem_singleton, or_comm]

theorem Language.foldWord_cmake (word : String) :
    (ofReadyMade .cmake).foldWord word = Text.fold word :=
  rfl

/-- So of two tokens at one place only names that fold to that keyword differ, and it makes them
keywords. -/
theorem Language.gains_cmake_iff {old new : PlacedToken}
    (h : (ofReadyMade .cmake).Gains ["idlc_compile"] old new) :
    new.token.kind ≠ old.token.kind ↔ old.token.kind.isWithin .name ∧
      ¬ old.token.kind.isWithin .nameVariable ∧ Text.fold old.token.text = "idlc_compile" := by
  have hfold : Text.fold "idlc_compile" = "idlc_compile" := by decide +kernel
  rw [h.differs]
  simp only [foldWord_cmake, List.mem_singleton, exists_eq_left, hfold, eq_comm]

/-! ## Deriving grammars -/

/-- What the lexers of CMake and of the grammar derived from it give for a text differs in names
that fold to the new keyword, and in nothing else. -/
structure Language.DiffersInCommand (old new : PlacedToken) : Prop where
  place : new.place = old.place
  text : new.token.text = old.token.text
  differs : new.token.kind ≠ old.token.kind ↔ old.token.kind.isWithin .name ∧
    ¬ old.token.kind.isWithin .nameVariable ∧ Text.fold old.token.text = "idlc_compile"
  keyword : new.token.kind ≠ old.token.kind → new.token.kind = .keyword

theorem Tokenwise.imp {related related' : PlacedToken → PlacedToken → Prop}
    {scan scan' : Except LexFault (List PlacedToken)}
    (himp : ∀ p q, related p q → related' p q) (h : Tokenwise related scan scan') :
    Tokenwise related' scan scan' := by
  obtain ⟨ps, qs, hps, hqs, hall⟩ := h
  exact ⟨ps, qs, hps, hqs, hall.imp himp⟩

theorem Language.tokenwise_differsInCommand (text : List Char) :
    Tokenwise DiffersInCommand
      (((ofReadyMade .cmake).lexerOn ReadyMade.cmake.lexer).placedTokens text)
      ((cmakeExt.lexerOn ReadyMade.cmake.lexer).placedTokens text) := by
  obtain ⟨ps, hbase⟩ := ReadyMade.cmake.exists_placedTokens text
  have hnot : ¬ ReadyMade.cmake.lexer.AsksForState text :=
    ReadyMade.not_asksForState (by decide) (by decide) text
  have hchanges := (Grammar.changesVocabularyOnly_lexerOn addsKeywords_cmakeExt hbase).2 (.inr hnot)
  exact hchanges.gains.imp fun _ _ h => ⟨h.place, h.text, gains_cmake_iff h, h.keyword⟩

/-- The lexer of C asks for the state for blanks where a function is declared. -/
theorem ReadyMade.asksForState_declaration : ReadyMade.c.lexer.AsksForState Lexer.declaration := by
  obtain ⟨w, hsettles⟩ := exists_settles (r := .c) rfl
  obtain ⟨ready, hready, -⟩ := hsettles.exists_placedScan
  obtain ⟨s, hnests⟩ := Lexer.nests_declaration hready
  exact ⟨_, _, ready, rfl, hready, .here hnests⟩

end DocHighlighter
