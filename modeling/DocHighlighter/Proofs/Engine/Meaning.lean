/-
# What a name means

A name is looked up among the names of the table first, and only then among the aliases
of its grammars.  Registering languages adds to the end of the table and leaves the kept
lexers alone (`Engine.Grows`), so for a name that an engine knows

| the name | after languages have been registered it means |
|---|---|
| is in the table | what it meant |
| is an alias, and still not in the table | what it meant |
| is an alias, and now in the table | the grammar that was registered under it |

In the first two cases every text has the tokens that it had (`Engine.KeepsMeaning`).
The third is what registering under an alias is for: a name of its own goes before the
aliases of others.
-/

import DocHighlighter.Proofs.Engine.AppendOnly

namespace DocHighlighter
namespace Engine

/-- A name stands for the same grammar, and texts in the language that it names have the same
tokens. -/
structure KeepsMeaning (e e' : Engine) (name : String) : Prop where
  get : e'.get? name = e.get? name
  tokens : ∀ code, e'.tokenize code name = e.tokenize code name

variable {e e' : Engine} {name : String} {g : Grammar}

/-! ## Looking up names -/

/-- A name in the table stands for the grammar that it stood for. -/
theorem Grows.get?_of_mem (h : e.Grows e') (hname : name ∈ e.names) :
    e'.get? name = e.get? name := by
  obtain ⟨more, hmore⟩ := h.languages
  obtain ⟨g, hlookup⟩ := exists_lookup_of_mem hname
  have hlookup' : e'.languages.lookup name = some g := by
    rw [← hmore, List.lookup_append, hlookup]
    rfl
  rw [get?, get?, hlookup, hlookup']

/-- So does an alias, as long as it is no name in the table. -/
theorem Grows.get?_of_alias (h : e.Grows e') (hget : e.get? name = some g)
    (hname : name ∉ e'.names) : e'.get? name = e.get? name := by
  obtain ⟨more, hmore⟩ := h.languages
  have hfree : e'.languages.lookup name = none := lookup_eq_none_iff.2 hname
  have hold : e.languages.lookup name = none := by
    rw [← hmore, List.lookup_append] at hfree
    exact (Option.or_eq_none_iff.1 hfree).1
  rw [get?, hold] at hget
  rw [get?, get?, hfree, hold, ← hmore, List.find?_append]
  dsimp only at hget ⊢
  cases hfind : e.languages.find? fun l => l.2.aliases.contains name with
  | some l => rfl
  | none =>
    rw [hfind] at hget
    cases hget

/-- The tokens of a text depend on the grammar that a name stands for and on the kept lexers. -/
theorem tokenize_congr (hget : e'.get? name = e.get? name) (hlexers : e'.lexers = e.lexers)
    (code : String) : e'.tokenize code name = e.tokenize code name := by
  have hlexer : (e'.lexer name).map (·.1) = (e.lexer name).map (·.1) := by
    rw [lexer, lexer, hget, hlexers]
    cases e.get? name with
    | none => rfl
    | some g =>
      dsimp only
      cases e.lexers.lookup g.name with
      | some kept => rfl
      | none => cases g.compile <;> rfl
  rw [tokenize, tokenize, rawTokens_eq, rawTokens_eq, hlexer]

/-- **Registering languages leaves what a known name means,** but that a name which is an alias only
is taken over by the language that is registered under it. -/
theorem keepsMeaning_of_isRegistration {c : Call} (hc : c.isRegistration = true)
    (hget : e.get? name = some g) :
    (name ∈ e.names ∨ name ∉ (c.after e).names → e.KeepsMeaning (c.after e) name) ∧
      (name ∉ e.names → name ∈ (c.after e).names →
        ∃ g', (c.after e).languages.lookup name = some g' ∧ (c.after e).get? name = some g') := by
  have hgrows := Call.grows hc e
  refine ⟨fun hkept => ?_, fun _ hname => ?_⟩
  · have hsame : (c.after e).get? name = e.get? name := by
      rcases hkept with hname | hname
      · exact hgrows.get?_of_mem hname
      · exact hgrows.get?_of_alias hget hname
    exact ⟨hsame, tokenize_congr hsame hgrows.lexers⟩
  · obtain ⟨g', hlookup⟩ := exists_lookup_of_mem hname
    exact ⟨g', hlookup, by rw [get?, hlookup]⟩

/-- A grammar that is registered under a name which JavaScript has as an alias. -/
def Call.takeAlias : Call :=
  .register "js" fun _ => .ok { name := "toy", displayName := "Toy", keywords := ["k"] }

/-- The other alias of JavaScript goes on to mean what it meant. -/
theorem keepsMeaning_mjs :
    ({ languages := Language.builtins } : Engine).get? "mjs" =
        some (Language.ofReadyMade .javascript) ∧
      ("mjs" ∈ ({ languages := Language.builtins } : Engine).names ∨
          "mjs" ∉ (Call.takeAlias.after { languages := Language.builtins }).names →
        ({ languages := Language.builtins } : Engine).KeepsMeaning
          (Call.takeAlias.after { languages := Language.builtins }) "mjs") ∧
      ("mjs" ∉ ({ languages := Language.builtins } : Engine).names →
        "mjs" ∈ (Call.takeAlias.after { languages := Language.builtins }).names →
        ∃ g', (Call.takeAlias.after { languages := Language.builtins }).languages.lookup "mjs" =
            some g' ∧
          (Call.takeAlias.after { languages := Language.builtins }).get? "mjs" = some g') :=
  ⟨rfl, keepsMeaning_of_isRegistration rfl rfl⟩

/-- **A known name can come to mean something else:** once a grammar is registered under an alias of
a built-in language, the alias no longer stands for that language. -/
theorem not_forall_keepsMeaning :
    ¬ ∀ (calls : List Call) (c : Call) (name : String) (g : Grammar), c.isRegistration = true →
      (({ languages := Language.builtins } : Engine).after calls).get? name = some g →
      (({ languages := Language.builtins } : Engine).after calls).KeepsMeaning
        (c.after (({ languages := Language.builtins } : Engine).after calls)) name := by
  intro h
  have hsame := (h [] Call.takeAlias "js" (Language.ofReadyMade .javascript) rfl rfl).get
  have hname := congrArg (Option.map Grammar.name) hsame
  revert hname
  decide +kernel

end Engine
end DocHighlighter
