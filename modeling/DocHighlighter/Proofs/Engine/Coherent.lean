/-
# Kept lexers and registered grammars

An engine keeps the lexers that it has made under the names of their grammars, and finds
grammars under the names that they are registered with.  Whatever is asked of a new
engine, every lexer that it keeps is one of a registered grammar of that name
(`IsNew.keepsOwn`); but it may be another grammar than the one that is asked for.

| | |
|---|---|
| `KeepsOwn` | what every call leaves true of the kept lexers |
| `IsUnambiguous` | grammars that share a name have the same lexer |
| `IsCoherent` | every language is served by the lexer of its own grammar |

An engine goes on being coherent, whichever lexers it is asked for, exactly if it is
unambiguous (`isCoherent_after_iff`).  Two grammars that go by one name are enough to
break it (`not_forall_isCoherent`).
-/

import DocHighlighter.Proofs.Engine.Registered
import DocHighlighter.Proofs.Grammar.Table

namespace DocHighlighter

/-- The tokens of a text, or why a lexer cannot give them. -/
def Lexer.rawTokens (l : Lexer) (code : String) : Except EngineFault (List Token) :=
  (l.tokensOf .keepingLines code).mapError .lex

/-- The tokens of a text by a lexer made for the occasion, neighbours of one kind joined. -/
def Grammar.tokenize (g : Grammar) (code : String) : Except EngineFault (List Token) :=
  ((g.compile.mapError .unknownTag).bind fun l => l.rawTokens code).map Token.merge

namespace Engine

/-! ## Calls -/

/-- What an engine can be asked for that may change it. -/
inductive Call where
  | register (name : String) (factory : GrammarFactory)
  | registerAll (definitions : List Definition)
  | lexer (name : String)
  | tokenize (code name : String)
  | highlight (code name : String)

/-- The engine after a call. -/
def Call.after (e : Engine) : Call → Engine
  | register name factory =>
    match e.register name factory with
    | .ok (_, e) => e
    | .error _ => e
  | registerAll definitions => (e.registerAll definitions).2.1
  | lexer name => e.keepLexer name
  | tokenize _ name => e.keepLexer name
  | highlight _ name => e.keepLexer name

/-- The engine after calls, one after the other. -/
def after (e : Engine) (calls : List Call) : Engine :=
  calls.foldl Call.after e

/-- An engine as it is made: no name stands twice in its table, and it has no lexer yet. -/
structure IsNew (e : Engine) : Prop where
  nodup : e.names.Nodup
  lexers : e.lexers = []

/-! ## What every call preserves -/

/-- No name stands twice in the table, and every kept lexer is one of a registered grammar whose
name it is kept under. -/
structure KeepsOwn (e : Engine) : Prop where
  nodup : e.names.Nodup
  kept : ∀ k ∈ e.lexers, ∃ l ∈ e.languages, l.2.name = k.1 ∧ l.2.compile = .ok k.2

variable {e : Engine} {name : String} {g : Grammar}

theorem IsNew.keepsOwn (h : e.IsNew) : e.KeepsOwn where
  nodup := h.nodup
  kept := fun k hk => by simp [h.lexers] at hk

theorem exists_mem_of_lookup {α : Type} {pairs : List (String × α)} {a : α}
    (h : pairs.lookup name = some a) : (name, a) ∈ pairs := by
  obtain ⟨before, rest, rfl, -⟩ := List.lookup_eq_some_iff.1 h
  simp

/-- What an engine finds is registered, maybe under another name. -/
theorem exists_mem_of_get? (h : e.get? name = some g) : ∃ l ∈ e.languages, l.2 = g := by
  unfold get? at h
  split at h
  · next g' hlookup =>
    obtain rfl := Option.some.inj h
    exact ⟨_, exists_mem_of_lookup hlookup, rfl⟩
  · obtain ⟨l, hl, rfl⟩ := Option.map_eq_some_iff.1 h
    exact ⟨l, List.mem_of_find?_eq_some hl, rfl⟩

/-- A registered grammar is found under its name. -/
theorem KeepsOwn.get?_of_mem (h : e.KeepsOwn) {l : String × Grammar} (hl : l ∈ e.languages) :
    e.get? l.1 = some l.2 := by
  rw [get?, lookup_of_mem h.nodup hl]

/-- A kept lexer is given out as it is. -/
theorem lexer_of_lookup (hget : e.get? name = some g) {lexer : Lexer}
    (hkept : e.lexers.lookup g.name = some lexer) : e.lexer name = .ok (lexer, e) := by
  rw [Engine.lexer, hget]
  simp only [hkept]

/-- A lexer that is given out is kept under the name of the grammar. -/
theorem lookup_of_lexer {lexer : Lexer} {e' : Engine} (hget : e.get? name = some g)
    (h : e.lexer name = .ok (lexer, e')) : e'.lexers.lookup g.name = some lexer := by
  rw [Engine.lexer, hget] at h
  cases hkept : e.lexers.lookup g.name with
  | some kept =>
    simp only [hkept, Except.ok.injEq, Prod.mk.injEq] at h
    obtain ⟨rfl, rfl⟩ := h
    exact hkept
  | none =>
    cases hcompile : g.compile with
    | error fault => simp [hkept, hcompile] at h
    | ok made =>
      simp only [hkept, hcompile, Except.ok.injEq, Prod.mk.injEq] at h
      obtain ⟨rfl, rfl⟩ := h
      simp

/-- What asking for a lexer can do to an engine. -/
theorem keepLexer_cases (e : Engine) (name : String) :
    e.keepLexer name = e ∨ ∃ l ∈ e.languages, ∃ lexer, l.2.compile = .ok lexer ∧
      e.keepLexer name = { e with lexers := (l.2.name, lexer) :: e.lexers } := by
  unfold keepLexer lexer
  cases hget : e.get? name with
  | none => exact .inl rfl
  | some g =>
    cases hkept : e.lexers.lookup g.name with
    | some lexer => exact .inl (by simp only [hkept])
    | none =>
      cases hcompile : g.compile with
      | error fault => exact .inl (by simp only [hkept, hcompile])
      | ok lexer =>
        obtain ⟨l, hl, rfl⟩ := exists_mem_of_get? hget
        exact .inr ⟨l, hl, lexer, hcompile, by simp only [hkept, hcompile]⟩

theorem KeepsOwn.keepLexer (h : e.KeepsOwn) (name : String) : (e.keepLexer name).KeepsOwn := by
  obtain hsame | ⟨l, hl, lexer, hcompile, hnew⟩ := keepLexer_cases e name
  · rw [hsame]
    exact h
  · rw [hnew]
    refine ⟨h.nodup, fun k hk => ?_⟩
    rcases List.mem_cons.1 hk with rfl | hk
    · exact ⟨l, hl, rfl, hcompile⟩
    · exact h.kept k hk

/-- What registering can do to an engine. -/
theorem register_cases {factory : GrammarFactory} {added : Bool} {e' : Engine}
    (h : e.register name factory = .ok (added, e')) :
    (added = false ∧ e' = e) ∨ ∃ g, factory e = .ok g ∧ e.languages.lookup name = none ∧
      e' = { e with languages := e.languages ++ [(name, g)] } := by
  unfold register at h
  split at h
  · obtain ⟨rfl, rfl⟩ := Prod.mk.inj (Except.ok.inj h)
    exact .inl ⟨rfl, rfl⟩
  · next hfree =>
    split at h
    · next g hbuild =>
      obtain ⟨rfl, rfl⟩ := Prod.mk.inj (Except.ok.inj h)
      exact .inr ⟨g, hbuild, hfree, rfl⟩
    · cases h

theorem KeepsOwn.register (h : e.KeepsOwn) {factory : GrammarFactory} {added : Bool} {e' : Engine}
    (hregister : e.register name factory = .ok (added, e')) : e'.KeepsOwn := by
  obtain ⟨-, rfl⟩ | ⟨g, -, hfree, rfl⟩ := register_cases hregister
  · exact h
  · refine ⟨?_, fun k hk => ?_⟩
    · have hnew : name ∉ e.names := by
        intro hmem
        obtain ⟨l, hl, rfl⟩ := List.mem_map.1 hmem
        simp [lookup_of_mem h.nodup hl] at hfree
      simpa [names, List.nodup_append] using ⟨h.nodup, fun l g hl => by
        rintro rfl
        exact hnew (List.mem_map_of_mem hl)⟩
    · obtain ⟨l, hl, hown⟩ := h.kept k hk
      exact ⟨l, List.mem_append_left _ hl, hown⟩

theorem KeepsOwn.registerAll (h : e.KeepsOwn) (definitions : List Definition) :
    (e.registerAll definitions).2.1.KeepsOwn := by
  induction definitions generalizing e with
  | nil => exact h
  | cons d rest ih =>
    rw [Engine.registerAll]
    cases hregister : e.register d.name d.build with
    | ok answer =>
      obtain ⟨added, e'⟩ := answer
      exact ih (h.register hregister)
    | error fault =>
      dsimp only
      split
      · exact ih h
      · exact h

/-- A call leaves every kept lexer one of a registered grammar. -/
theorem KeepsOwn.call (h : e.KeepsOwn) (call : Call) : (call.after e).KeepsOwn := by
  cases call with
  | register name factory =>
    rw [Call.after]
    split
    · next hregister => exact h.register hregister
    · exact h
  | registerAll definitions => exact h.registerAll definitions
  | lexer name => exact h.keepLexer name
  | tokenize code name => exact h.keepLexer name
  | highlight code name => exact h.keepLexer name

/-- So do calls, one after the other. -/
theorem KeepsOwn.after (h : e.KeepsOwn) (calls : List Call) : (e.after calls).KeepsOwn := by
  induction calls generalizing e with
  | nil => exact h
  | cons call rest ih => exact ih (h.call call)

/-! ## Coherence -/

/-- Every language that the engine finds is served by the lexer of its own grammar, and its texts
have the tokens that a lexer made for the occasion gives. -/
structure IsCoherent (e : Engine) : Prop where
  lexer : ∀ name g, e.get? name = some g →
    (e.lexer name).map (·.1) = g.compile.mapError .unknownTag
  tokens : ∀ name g, e.get? name = some g → ∀ code, e.tokenize code name = g.tokenize code

/-- Registered grammars that share a name have the same lexer. -/
def IsUnambiguous (e : Engine) : Prop :=
  ∀ l₁ ∈ e.languages, ∀ l₂ ∈ e.languages, l₁.2.name = l₂.2.name →
    ∀ lexer, l₁.2.compile = .ok lexer → l₂.2.compile = .ok lexer

/-- The tokens of a text are those of the lexer that is found. -/
theorem rawTokens_eq (e : Engine) (code name : String) :
    e.rawTokens code name = ((e.lexer name).map (·.1)).bind fun l => l.rawTokens code := by
  unfold rawTokens
  cases e.lexer name with
  | error fault => rfl
  | ok answer =>
    simp only [bind, Except.bind, Except.map, Lexer.rawTokens]
    cases answer.1.tokensOf .keepingLines code <;> rfl

/-- Where grammars that share a name have the same lexer, the kept lexer is the right one. -/
theorem KeepsOwn.lexer_eq (h : e.KeepsOwn) (hsame : e.IsUnambiguous)
    (hget : e.get? name = some g) :
    (e.lexer name).map (·.1) = g.compile.mapError .unknownTag := by
  cases hkept : e.lexers.lookup g.name with
  | none =>
    rw [Engine.lexer, hget]
    cases hcompile : g.compile <;> simp only [hkept, hcompile] <;> rfl
  | some lexer =>
    obtain ⟨l, hl, hname, hcompile⟩ := h.kept _ (exists_mem_of_lookup hkept)
    obtain ⟨l', hl', rfl⟩ := exists_mem_of_get? hget
    rw [lexer_of_lookup hget hkept, hsame l hl l' hl' hname lexer hcompile]
    rfl

theorem KeepsOwn.isCoherent (h : e.KeepsOwn) (hsame : e.IsUnambiguous) : e.IsCoherent where
  lexer := fun _ _ hget => h.lexer_eq hsame hget
  tokens := fun name g hget code => by
    rw [tokenize, rawTokens_eq, h.lexer_eq hsame hget]
    rfl

theorem IsUnambiguous.of_languages {e' : Engine} (h : e.IsUnambiguous)
    (heq : e'.languages = e.languages) : e'.IsUnambiguous := by
  rw [IsUnambiguous, heq]
  exact h

theorem languages_after_lexers (e : Engine) (asked : List String) :
    (e.after (asked.map .lexer)).languages = e.languages := by
  induction asked generalizing e with
  | nil => rfl
  | cons name rest ih => exact (ih _).trans (languages_keepLexer e name)

/-- Asked for the lexer of one grammar, a coherent engine keeps it, and then serves every other
grammar of that name with it. -/
theorem KeepsOwn.isUnambiguous (h : e.KeepsOwn) (hnow : e.IsCoherent)
    (hnext : ∀ name, (e.keepLexer name).IsCoherent) : e.IsUnambiguous := by
  intro l₁ hl₁ l₂ hl₂ hname lexer hcompile
  have hget₁ := h.get?_of_mem hl₁
  obtain ⟨e', hlexer⟩ : ∃ e', e.lexer l₁.1 = .ok (lexer, e') := by
    have hfirst := hnow.lexer l₁.1 l₁.2 hget₁
    rw [hcompile] at hfirst
    cases hlexer : e.lexer l₁.1 with
    | error fault =>
      rw [hlexer] at hfirst
      cases hfirst
    | ok answer =>
      rw [hlexer] at hfirst
      obtain rfl := Except.ok.inj hfirst
      exact ⟨answer.2, rfl⟩
  have hkeep : e.keepLexer l₁.1 = e' := by rw [Engine.keepLexer, hlexer]
  have hget₂ : e'.get? l₂.1 = some l₂.2 := by
    rw [get?_congr (hkeep ▸ languages_keepLexer e l₁.1)]
    exact h.get?_of_mem hl₂
  have hkept : e'.lexers.lookup l₂.2.name = some lexer := hname ▸ lookup_of_lexer hget₁ hlexer
  have hsecond := (hkeep ▸ hnext l₁.1).lexer l₂.1 l₂.2 hget₂
  rw [lexer_of_lookup hget₂ hkept] at hsecond
  cases hcompile₂ : l₂.2.compile with
  | error fault =>
    rw [hcompile₂] at hsecond
    cases hsecond
  | ok lexer₂ =>
    rw [hcompile₂] at hsecond
    exact congrArg Except.ok (Except.ok.inj hsecond).symm

/-! ## Grammars registered under their own names -/

/-- Every grammar is registered under its own name. -/
def NamesOwn (e : Engine) : Prop :=
  ∀ l ∈ e.languages, l.2.name = l.1

/-- Then only a grammar itself has its name. -/
theorem NamesOwn.isUnambiguous (h : e.NamesOwn) (hnodup : e.names.Nodup) : e.IsUnambiguous := by
  intro l₁ hl₁ l₂ hl₂ hname lexer hcompile
  rw [h l₁ hl₁, h l₂ hl₂] at hname
  obtain rfl : l₁ = l₂ := List.inj_on_of_nodup_map hnodup hl₁ hl₂ hname
  exact hcompile

end Engine

/-- A definition builds grammars of its own name. -/
def Definition.NamesOwn (d : Definition) : Prop :=
  ∀ e g, d.build e = .ok g → g.name = d.name

theorem Definition.standard_namesOwn : ∀ d ∈ standard, d.NamesOwn := by
  intro d hd e g hbuild
  rcases List.mem_cons.1 hd with rfl | hd
  · cases hcmake : e.get? "cmake" with
    | none => simp [cmakeExt, hcmake] at hbuild
    | some base =>
      simp only [cmakeExt, hcmake, Except.ok.injEq] at hbuild
      rw [← hbuild]
      rfl
  · obtain rfl := List.mem_singleton.1 hd
    obtain rfl := Except.ok.inj hbuild
    rfl

namespace Engine

variable {e : Engine}

theorem NamesOwn.registerAll (h : e.NamesOwn) {definitions : List Definition}
    (hown : ∀ d ∈ definitions, d.NamesOwn) : (e.registerAll definitions).2.1.NamesOwn := by
  induction definitions generalizing e with
  | nil => exact h
  | cons d rest ih =>
    have hrest := fun d' hd' => hown d' (List.mem_cons_of_mem d hd')
    rw [Engine.registerAll]
    cases hregister : e.register d.name d.build with
    | ok answer =>
      obtain ⟨added, e'⟩ := answer
      refine ih ?_ hrest
      obtain ⟨-, rfl⟩ | ⟨g, hbuild, -, rfl⟩ := register_cases hregister
      · exact h
      · intro l hl
        rcases List.mem_append.1 hl with hl | hl
        · exact h l hl
        · obtain rfl := List.mem_singleton.1 hl
          exact hown d List.mem_cons_self e g hbuild
    | error fault =>
      dsimp only
      split
      · exact ih h hrest
      · exact h

/-! ## When an engine is coherent -/

/-- **When an engine serves every language with its own lexer:** after any calls on a new engine,
it is coherent, and stays so whichever lexers it is asked for next, exactly if registered grammars
that share a name have the same lexer. -/
theorem isCoherent_after_iff {e₀ : Engine} (h : e₀.IsNew) (calls : List Call) :
    (∀ asked : List String, (e₀.after (calls ++ asked.map .lexer)).IsCoherent) ↔
      (e₀.after calls).IsUnambiguous := by
  have hown := h.keepsOwn.after calls
  have happend : ∀ more, e₀.after (calls ++ more) = (e₀.after calls).after more :=
    fun more => List.foldl_append
  constructor
  · intro hcoherent
    refine hown.isUnambiguous ?_ fun name => ?_
    · simpa [happend] using hcoherent []
    · simpa [happend, after, Call.after] using hcoherent [name]
  · intro hsame asked
    rw [happend]
    exact (hown.after _).isCoherent (hsame.of_languages (languages_after_lexers _ asked))

theorem isNew_builtins : ({ languages := Language.builtins } : Engine).IsNew :=
  ⟨by decide, rfl⟩

theorem namesOwn_builtins : ({ languages := Language.builtins } : Engine).NamesOwn := by
  intro l hl
  obtain ⟨r, -, rfl⟩ := List.mem_map.1 hl
  rfl

/-- With the built-in languages and the standard definitions an engine is coherent, whichever lexers
it is asked for. -/
theorem isCoherent_builtins : ({ languages := Language.builtins } : Engine).IsNew ∧
    ∀ asked : List String, (({ languages := Language.builtins } : Engine).after
      ([.registerAll Definition.standard] ++ asked.map .lexer)).IsCoherent := by
  have hnodup := (isNew_builtins.keepsOwn.registerAll Definition.standard).nodup
  have hnames := namesOwn_builtins.registerAll Definition.standard_namesOwn
  exact ⟨isNew_builtins, (isCoherent_after_iff isNew_builtins
    [.registerAll Definition.standard]).2 (hnames.isUnambiguous hnodup)⟩

/-- An engine with no languages. -/
def empty : Engine where
  languages := []

theorem isNew_empty : empty.IsNew :=
  ⟨List.nodup_nil, rfl⟩

/-- Two grammars that both go by the name `x`, each with a keyword of its own. -/
def Call.twins : List Call := [
  .register "a" fun _ => .ok { name := "x", displayName := "A", keywords := ["k"] },
  .register "b" fun _ => .ok { name := "x", displayName := "B", keywords := ["m"] }]

/-- **A kept lexer can be the wrong one:** once the first of two grammars of one name has been asked
for its lexer, the second is served with it, and its keyword is plain text. -/
theorem not_forall_isCoherent :
    ¬ ∀ e₀ : Engine, e₀.IsNew → ∀ calls, (e₀.after calls).IsCoherent := by
  intro h
  have htokens := (h empty isNew_empty (Call.twins ++ [.lexer "a"])).tokens "b" _ rfl "m"
  have hkept : ((empty.after (Call.twins ++ [.lexer "a"])).tokenize "m" "b").toOption =
      some [⟨.text, "m"⟩, ⟨.whitespace, "\n"⟩] := by
    decide +kernel
  rw [htokens] at hkept
  revert hkept
  decide +kernel

end Engine
end DocHighlighter
