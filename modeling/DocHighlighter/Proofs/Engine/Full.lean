/-
# Engines that know every tagged language

A full engine has the built-in languages, and under the names of the standard
definitions nothing else than what these build (`Engine.IsFull`).  Once the definitions
are registered it serves every language that a tag of a fragment names
(`Engine.Serves`), and goes on to do so when it keeps lexers.

What such an engine makes of a text are spans of tokens that are the prepared text
(`Engine.Serves.highlight_eq`).  For the interface definition language this follows from
its grammar; of a ready-made lexer it has to be known for the text in question
(`ReadyMade.IsLossless`).
-/

import DocHighlighter.Block.Fragment
import DocHighlighter.Engine.Registry
import DocHighlighter.Proofs.Grammar.Lossless
import Mathlib.Data.List.Nodup

namespace DocHighlighter

/-- The tokens that a ready-made lexer gives for a prepared text are that text. -/
def ReadyMade.IsLossless (r : ReadyMade) (text : List Char) : Prop :=
  ∃ tokens, r.lexer.tokens text = .ok tokens ∧ Token.textOf tokens = text

/-- CMake with one more command. -/
def Language.cmakeExt : Grammar :=
  { ofReadyMade .cmake with
    name := "cmake-ext"
    displayName := "CMakeExt"
    keywords := Grammar.wordSet ("idlc_compile" :: (ofReadyMade .cmake).keywords)
    filenames := []
    derivedFrom := some (ofReadyMade .cmake).name }

/-- The grammars of the languages that tags of fragments name. -/
def Language.tagged : List (String × Grammar) :=
  [("cmake-ext", cmakeExt), ("idl", Idl.grammar)] ++
    [.json, .c, .cpp, .javascript, .bash].map fun r => ((ofReadyMade r).name, ofReadyMade r)

/-- The ready-made lexer that a tagged language builds on, if any. -/
def Language.baseOf (language : String) : Option ReadyMade :=
  if language = "cmake-ext" then some .cmake else ReadyMade.ofName? language

theorem Language.lexer_of_mem_tagged : ∀ l ∈ tagged, l.2.lexer = baseOf l.1 := by
  decide

theorem Language.name_of_mem_tagged : ∀ l ∈ tagged, l.2.name = l.1 := by
  decide

theorem Language.nodup_tagged : (tagged.map (·.1)).Nodup := by
  decide

/-- Every tag of a fragment names one of them. -/
theorem Language.exists_tagged {language : String}
    (h : language ∈ Fragment.languages.map (·.2)) : ∃ g, (language, g) ∈ tagged := by
  have hnames : ∀ name ∈ Fragment.languages.map (·.2), name ∈ tagged.map (·.1) := by
    decide
  obtain ⟨⟨name, g⟩, hmem, rfl⟩ := List.mem_map.1 (hnames language h)
  exact ⟨g, hmem⟩

/-! ## Their tokens -/

theorem Token.textOf_map_retag (retag : Token → Kind) (tokens : List Token) :
    textOf (tokens.map fun t => { t with kind := retag t }) = textOf tokens := by
  rw [textOf, List.flatMap_map]
  rfl

/-- A lexer that turns names into keywords scans like the one it builds on, if no nested scan of
that one begins elsewhere than at the root. -/
theorem Grammar.tokens_keywordLexer {g : Grammar} {base : Lexer} {text : List Char}
    {tokens : List Token} (hbody : (g.keywordLexer base).body = base.body)
    (h : base.tokens text = .ok tokens) :
    ∃ tokens', (g.keywordLexer base).tokens text = .ok tokens' ∧
      Token.textOf tokens' = Token.textOf tokens := by
  have hplain : ∃ plain : List Token, Token.textOf plain = Token.textOf tokens ∧
      (g.keywordLexer base).tokens text =
        .ok (plain.map fun t => { t with kind := (g.keywordLexer base).retag t }) := by
    rw [Lexer.tokens, hbody]
    unfold Lexer.tokens at h
    split at h
    · next hjson =>
      obtain rfl := Except.ok.inj h
      exact ⟨Json.scan text, (Token.textOf_map_retag ..).symm, rfl⟩
    · next flags table htable =>
      cases hready : table.ready flags with
      | error fault =>
        rw [hready] at h
        exact absurd h (by simp [bind, Except.bind])
      | ok ready =>
        cases hscan : Scanner.scan ready text with
        | error fault =>
          rw [hready] at h
          simp only [hscan] at h
          exact absurd h (by simp [bind, Except.bind])
        | ok plain =>
          rw [hready] at h
          simp only [hscan] at h
          obtain rfl := Except.ok.inj h
          refine ⟨plain, (Token.textOf_map_retag ..).symm, ?_⟩
          simp [hscan, bind, Except.bind, pure, Except.pure]
  obtain ⟨plain, htext, htokens⟩ := hplain
  exact ⟨_, htokens, (Token.textOf_map_retag ..).trans htext⟩

theorem Language.body_cmakeExt :
    (cmakeExt.keywordLexer Lexer.cmake).body = Lexer.cmake.body := by
  rfl

/-- The lexer of a tagged language is lossless on every text, or gives on every text what the
ready-made lexer gives that it builds on, but for the kinds of tokens. -/
theorem Language.exists_lexer {l : String × Grammar} (hl : l ∈ tagged) :
    ∃ lexer, l.2.compile = .ok lexer ∧ ∀ text,
      (l.2.lexer = none → ∃ tokens, lexer.tokens text = .ok tokens ∧
        Token.textOf tokens = text) ∧
      ∀ r, l.2.lexer = some r → ∀ tokens, r.lexer.tokens text = .ok tokens →
        ∃ tokens', lexer.tokens text = .ok tokens' ∧
          Token.textOf tokens' = Token.textOf tokens := by
  have hready : ∀ r : ReadyMade, (ofReadyMade r).keywords = [] → (ofReadyMade r).lexer = some r →
      (ofReadyMade r).compile = .ok r.lexer := by
    intro r hkeywords hlexer
    rw [Grammar.compile, hlexer, hkeywords]
    rfl
  rcases List.mem_append.1 hl with hl | hl
  · rcases List.mem_cons.1 hl with rfl | hl
    · have hcompile : cmakeExt.compile = .ok (if cmakeExt.keywords.isEmpty then Lexer.cmake
          else cmakeExt.keywordLexer Lexer.cmake) := rfl
      have hbase : cmakeExt.lexer = some .cmake := rfl
      refine ⟨_, hcompile, fun text => ⟨fun hnone => absurd (hbase.symm.trans hnone) (by simp),
        fun r hr tokens htokens => ?_⟩⟩
      obtain rfl : ReadyMade.cmake = r := Option.some.inj hr
      split
      · exact ⟨tokens, htokens, rfl⟩
      · exact Grammar.tokens_keywordLexer body_cmakeExt htokens
    · obtain rfl := List.mem_singleton.1 hl
      obtain ⟨table, ready, ht, hr, hof⟩ :=
        Grammar.exists_ready Idl.tagsKnown Idl.patternsRead
      obtain ⟨lexer, hcompile, hbody, hretag⟩ := Grammar.exists_ruleLexer rfl ht
      have hbase : Idl.grammar.lexer = none := rfl
      refine ⟨lexer, hcompile, fun text => ⟨fun _ => ?_,
        fun r hr => absurd (hbase.symm.trans hr) (by simp)⟩⟩
      obtain ⟨-, tokens, -, -, -, -, hscan, hcover⟩ :=
        Scanner.exists_cover hof Idl.openingsTake text
      refine ⟨tokens, ?_, hcover.textOf_eq⟩
      rw [Lexer.tokens_of_ready hbody hretag hr, hscan]
      rfl
  · obtain ⟨r, hr, rfl⟩ := List.mem_map.1 hl
    have hplain : ∀ r ∈ [ReadyMade.json, .c, .cpp, .javascript, .bash],
        (ofReadyMade r).keywords = [] ∧ (ofReadyMade r).lexer = some r := by
      decide
    obtain ⟨hkeywords, hlexer⟩ := hplain r hr
    refine ⟨r.lexer, hready r hkeywords hlexer, fun text => ⟨fun hnone => ?_,
      fun r' hr' tokens htokens => ?_⟩⟩
    · exact absurd (hlexer.symm.trans hnone) (by simp)
    · obtain rfl := Option.some.inj (hlexer.symm.trans hr')
      exact ⟨tokens, htokens, rfl⟩

/-- The lexers of the tagged languages give tokens that are the text. -/
theorem Language.exists_tokens {l : String × Grammar} (hl : l ∈ tagged) {text : List Char}
    (hbase : ∀ r, l.2.lexer = some r → r.IsLossless text) :
    ∃ lexer tokens, l.2.compile = .ok lexer ∧ lexer.tokens text = .ok tokens ∧
      Token.textOf tokens = text := by
  obtain ⟨lexer, hcompile, hlexer⟩ := exists_lexer hl
  cases hr : l.2.lexer with
  | none =>
    obtain ⟨tokens, htokens, htext⟩ := (hlexer text).1 hr
    exact ⟨lexer, tokens, hcompile, htokens, htext⟩
  | some r =>
    obtain ⟨tokens, htokens, htext⟩ := hbase r hr
    obtain ⟨tokens', htokens', htext'⟩ := (hlexer text).2 r hr tokens htokens
    exact ⟨lexer, tokens', hcompile, htokens', htext'.trans htext⟩

namespace Engine

/-- An engine has the built-in languages, nothing else under the names of the standard
definitions, and has kept the lexers of these grammars only. -/
structure IsFull (e : Engine) : Prop where
  builtins : ∀ l ∈ Language.builtins, e.languages.lookup l.1 = some l.2
  standard : ∀ l ∈ [("cmake-ext", Language.cmakeExt), ("idl", Language.Idl.grammar)],
    ∀ g, e.languages.lookup l.1 = some g → g = l.2
  kept : ∀ l ∈ Language.tagged, ∀ lexer, e.lexers.lookup l.1 = some lexer →
    l.2.compile = .ok lexer

/-- An engine with the built-in languages that has made no lexer yet is full. -/
theorem isFull_builtins (style : String) :
    ({ languages := Language.builtins, style := style } : Engine).IsFull where
  builtins := by
    intro l hl
    obtain ⟨r, hr, rfl⟩ := List.mem_map.1 hl
    have hlookup : ∀ r ∈ [ReadyMade.cmake, .json, .c, .cpp, .javascript, .bash],
        Language.builtins.lookup (Language.ofReadyMade r).name = some (Language.ofReadyMade r) := by
      intro r hr
      cases r <;> rfl
    exact hlookup r hr
  standard := by
    intro l hl g hg
    have hnone : ∀ l ∈ [("cmake-ext", Language.cmakeExt), ("idl", Language.Idl.grammar)],
        Language.builtins.lookup l.1 = none := by
      decide
    rw [hnone l hl] at hg
    cases hg
  kept := fun _ _ _ h => by simp at h

/-- An engine finds the grammars of the tagged languages, and what it has kept for them are their
lexers. -/
structure Serves (e : Engine) : Prop where
  found : ∀ l ∈ Language.tagged, e.get? l.1 = some l.2
  kept : ∀ l ∈ Language.tagged, ∀ lexer, e.lexers.lookup l.1 = some lexer →
    l.2.compile = .ok lexer

variable {e : Engine}

/-- Keeping the lexer of a tagged language is no loss. -/
theorem Serves.keepLexer (h : e.Serves) {l : String × Grammar} (hl : l ∈ Language.tagged) :
    (e.keepLexer l.1).Serves := by
  have hname := Language.name_of_mem_tagged l hl
  unfold Engine.keepLexer Engine.lexer
  rw [h.found l hl]
  cases hkept : e.lexers.lookup l.2.name with
  | some lexer => simpa [hkept] using h
  | none =>
    cases hcompile : l.2.compile with
    | error fault => simpa [hkept, hcompile] using h
    | ok lexer =>
      simp only [hkept, hcompile]
      refine ⟨h.found, fun l' hl' lexer' hlookup => ?_⟩
      rw [hname, List.lookup_cons] at hlookup
      split at hlookup
      · next hsame =>
        obtain rfl : l' = l :=
          List.inj_on_of_nodup_map Language.nodup_tagged hl' hl (beq_iff_eq.1 hsame)
        obtain rfl := Option.some.inj hlookup
        exact hcompile
      · exact h.kept l' hl' lexer' hlookup

/-! ## Registering -/

theorem get?_of_lookup {name : String} {g : Grammar} (h : e.languages.lookup name = some g) :
    e.get? name = some g := by
  rw [Engine.get?, h]

/-- Registering a definition where its name is free or taken by its own grammar. -/
theorem exists_register {d : Definition} {g : Grammar}
    (htaken : ∀ g', e.languages.lookup d.name = some g' → g' = g)
    (hbuild : d.build e = .ok g) :
    ∃ added e', e.register d.name d.build = .ok (added, e') ∧ e'.lexers = e.lexers ∧
      e'.languages.lookup d.name = some g ∧
      ∀ name ≠ d.name, e'.languages.lookup name = e.languages.lookup name := by
  cases hlookup : e.languages.lookup d.name with
  | some g' =>
    obtain rfl := htaken g' hlookup
    exact ⟨false, e, by rw [register, hlookup], rfl, hlookup, fun _ _ => rfl⟩
  | none =>
    refine ⟨true, { e with languages := e.languages ++ [(d.name, g)] }, ?_, rfl, ?_, ?_⟩
    · rw [register, hlookup]
      simp only [hbuild]
    · simp [List.lookup_append, hlookup]
    · intro name hname
      have hne : (name == d.name) = false := by simpa using hname
      simp [List.lookup_append, List.lookup_cons, hne]

/-- **A full engine serves the tagged languages** once the standard definitions are registered. -/
theorem IsFull.registerAll (h : e.IsFull) :
    ∃ names e', e.registerAll Definition.standard = (.ok names, e', []) ∧ e'.Serves := by
  have hcmake : e.get? "cmake" = some (Language.ofReadyMade .cmake) :=
    get?_of_lookup (h.builtins _ List.mem_cons_self)
  have hbuild : Definition.cmakeExt.build e = .ok Language.cmakeExt := by
    simp only [Definition.cmakeExt, hcmake]
    rfl
  obtain ⟨added, e₁, hfirst, hlexers₁, hnew₁, hold₁⟩ :=
    exists_register (h.standard _ List.mem_cons_self) hbuild
  have hidl : ∀ g, e₁.languages.lookup Definition.idl.name = some g →
      g = Language.Idl.grammar := by
    intro g hg
    rw [hold₁ Definition.idl.name (by decide)] at hg
    exact h.standard ("idl", Language.Idl.grammar) (by simp) g hg
  obtain ⟨added', e₂, hsecond, hlexers₂, hnew₂, hold₂⟩ := exists_register hidl rfl
  have hresult : e.registerAll Definition.standard =
      (.ok (if added then "cmake-ext" :: (if added' then ["idl"] else [])
        else (if added' then ["idl"] else [])), e₂, []) := by
    rw [Definition.standard, Engine.registerAll, hfirst]
    simp only [Engine.registerAll, hsecond]
    rfl
  refine ⟨_, e₂, hresult, fun l hl => get?_of_lookup ?_, fun l hl lexer hlexer => ?_⟩
  · rcases List.mem_append.1 hl with hl | hl
    · rcases List.mem_cons.1 hl with rfl | hl
      · rw [hold₂ _ (by decide)]
        exact hnew₁
      · obtain rfl := List.mem_singleton.1 hl
        exact hnew₂
    · obtain ⟨r, hr, rfl⟩ := List.mem_map.1 hl
      have hother : ∀ r ∈ [ReadyMade.json, .c, .cpp, .javascript, .bash],
          (Language.ofReadyMade r).name ≠ Definition.idl.name ∧
            (Language.ofReadyMade r).name ≠ Definition.cmakeExt.name := by
        decide
      have hbuiltin : ((Language.ofReadyMade r).name, Language.ofReadyMade r) ∈
          Language.builtins :=
        List.mem_map_of_mem (List.mem_cons_of_mem _ hr)
      rw [hold₂ _ (hother r hr).1, hold₁ _ (hother r hr).2]
      exact h.builtins _ hbuiltin
  · rw [hlexers₂, hlexers₁] at hlexer
    exact h.kept l hl lexer hlexer

/-- The spans that an engine makes of a text in a tagged language are those of the tokens that the
lexer of the language gives. -/
theorem Serves.highlight_eq (he : e.Serves) {l : String × Grammar} (hl : l ∈ Language.tagged)
    {lexer : Lexer} (hcompile : l.2.compile = .ok lexer) {text : String} {tokens : List Token}
    (htokens : lexer.tokensOf .keepingLines text = .ok tokens) :
    e.highlight text l.1 = .ok (Spans.ofTokens tokens) := by
  have hname := Language.name_of_mem_tagged l hl
  have hlexer : ∃ e', e.lexer l.1 = .ok (lexer, e') := by
    cases hkept : e.lexers.lookup l.2.name with
    | none =>
      exact ⟨{ e with lexers := (l.2.name, lexer) :: e.lexers }, by
        simp only [Engine.lexer, he.found l hl, hkept, hcompile]⟩
    | some lexer' =>
      have hsame := he.kept l hl lexer' (hname ▸ hkept)
      obtain rfl := Except.ok.inj (hsame.symm.trans hcompile)
      exact ⟨e, by simp only [Engine.lexer, he.found l hl, hkept]⟩
  obtain ⟨e', he'⟩ := hlexer
  simp [Engine.highlight, Engine.rawTokens, he', htokens, bind, Except.bind, pure, Except.pure,
    Except.map]

/-- Where the lexers that the languages build on are lossless, these tokens are the prepared text. -/
theorem exists_highlight {l : String × Grammar} (hl : l ∈ Language.tagged) {text : String}
    (hbase : ∀ r, l.2.lexer = some r →
      r.IsLossless (Preparation.keepingLines.apply text.toList)) :
    ∃ tokens, Token.textOf tokens = Preparation.keepingLines.apply text.toList ∧
      ∀ e : Engine, e.Serves → e.highlight text l.1 = .ok (Spans.ofTokens tokens) := by
  obtain ⟨lexer, tokens, hcompile, htokens, htext⟩ := Language.exists_tokens hl hbase
  exact ⟨tokens, htext, fun e he => he.highlight_eq hl hcompile htokens⟩

end Engine
end DocHighlighter
