/-
# Registering once

Registering the standard definitions leaves an engine where there is nothing left to
register (`isRegistered_registerAll`): each of them has its name in the table, or cannot
be built from it.  Whether this is so depends on the table only, so it is so still when
lexers have been made, and registering again changes nothing
(`IsRegistered.registerAll`).
-/

import DocHighlighter.Engine.Registry

namespace DocHighlighter
namespace Engine

/-- No standard definition is left to register. -/
structure IsRegistered (e : Engine) : Prop where
  cmakeExt : e.languages.lookup Definition.cmakeExt.name = none → e.get? "cmake" = none
  idl : e.languages.lookup Definition.idl.name ≠ none

variable {e e' : Engine}

theorem get?_congr (h : e'.languages = e.languages) (name : String) :
    e'.get? name = e.get? name := by
  rw [get?, get?, h]

/-- Only the table counts. -/
theorem IsRegistered.of_languages (he : e.IsRegistered) (h : e'.languages = e.languages) :
    e'.IsRegistered := by
  refine ⟨fun hnone => ?_, ?_⟩
  · rw [get?_congr h]
    exact he.cmakeExt (h ▸ hnone)
  · rw [h]
    exact he.idl

theorem languages_keepLexer (e : Engine) (name : String) :
    (e.keepLexer name).languages = e.languages := by
  unfold keepLexer lexer
  cases e.get? name with
  | none => rfl
  | some g =>
    cases hkept : e.lexers.lookup g.name with
    | some l => simp [hkept]
    | none => cases hcompile : g.compile <;> simp [hkept, hcompile]

/-- A name that is taken is not registered again. -/
theorem register_of_lookup {d : Definition} (h : e.languages.lookup d.name ≠ none) :
    e.register d.name d.build = .ok (false, e) := by
  obtain ⟨g, hg⟩ := Option.ne_none_iff_exists'.1 h
  rw [register, hg]

/-- The interface definition language adds nothing that CMake could be built from. -/
theorem get?_cmake_append (h : e.get? "cmake" = none) :
    ({ e with languages := e.languages ++ [(Definition.idl.name, Language.Idl.grammar)] } :
      Engine).get? "cmake" = none := by
  have hname : ("cmake" == Definition.idl.name) = false := by decide
  have halias : Language.Idl.grammar.aliases.contains "cmake" = false := by decide
  unfold get? at h ⊢
  cases hlookup : e.languages.lookup "cmake" with
  | some g => simp [hlookup] at h
  | none =>
    simp only [hlookup, Option.map_eq_none_iff] at h
    simp only [List.lookup_append, hlookup, List.lookup_cons, hname, List.lookup_nil,
      Option.none_or, List.find?_append, h, Option.map_eq_none_iff]
    simpa using halias

/-- After CMake's extension is registered, it is in the table, or CMake is not. -/
theorem exists_registerAll_cmakeExt (e : Engine) (rest : List Definition) :
    ∃ e₁ : Engine, (e.registerAll (Definition.cmakeExt :: rest)).2.1 = (e₁.registerAll rest).2.1 ∧
      (e₁.languages.lookup Definition.cmakeExt.name = none → e₁.get? "cmake" = none) := by
  rw [registerAll]
  cases hlookup : e.languages.lookup Definition.cmakeExt.name with
  | some g =>
    rw [register_of_lookup (by simp [hlookup])]
    exact ⟨e, rfl, fun hnone => by simp [hlookup] at hnone⟩
  | none =>
    rw [register, hlookup]
    cases hcmake : e.get? "cmake" with
    | none =>
      have hbuild : Definition.cmakeExt.build e =
          .error (.unavailable "Base grammar 'cmake' is not available") := by
        simp only [Definition.cmakeExt, hcmake]
      simp only [hbuild, BuildFault.isLookup, if_true]
      exact ⟨e, rfl, fun _ => hcmake⟩
    | some base =>
      obtain ⟨g, hbuild⟩ : ∃ g, Definition.cmakeExt.build e = .ok g :=
        ⟨_, by simp only [Definition.cmakeExt, hcmake]; rfl⟩
      simp only [hbuild]
      refine ⟨_, rfl, fun hnone => ?_⟩
      simp [List.lookup_append, hlookup] at hnone

/-- **Registering leaves nothing to register.** -/
theorem isRegistered_registerAll (e : Engine) :
    (e.registerAll Definition.standard).2.1.IsRegistered := by
  obtain ⟨e₁, hfirst, hcmake⟩ := exists_registerAll_cmakeExt e [Definition.idl]
  rw [Definition.standard, hfirst, registerAll]
  cases hlookup : e₁.languages.lookup Definition.idl.name with
  | some g =>
    have htaken : e₁.languages.lookup Definition.idl.name ≠ none := by simp [hlookup]
    rw [register_of_lookup htaken]
    exact ⟨hcmake, htaken⟩
  | none =>
    rw [register, hlookup]
    refine ⟨fun hnone => ?_, ?_⟩
    · refine get?_cmake_append (hcmake ?_)
      have hold := hnone
      simp only [registerAll, Definition.idl, List.lookup_append, Option.or_eq_none_iff] at hold
      exact hold.1
    · simp [registerAll, Definition.idl, List.lookup_append]

/-- Registering again changes nothing; there may be a warning. -/
theorem IsRegistered.registerAll (h : e.IsRegistered) :
    ∃ log, e.registerAll Definition.standard = (.ok [], e, log) := by
  have hidl : e.registerAll [Definition.idl] = (.ok [], e, []) := by
    rw [Engine.registerAll, register_of_lookup h.idl]
    rfl
  rw [Definition.standard, Engine.registerAll]
  cases hlookup : e.languages.lookup Definition.cmakeExt.name with
  | some g =>
    rw [register_of_lookup (by simp [hlookup])]
    exact ⟨[], by simp only [hidl]; rfl⟩
  | none =>
    have hbuild : Definition.cmakeExt.build e =
        .error (.unavailable "Base grammar 'cmake' is not available") := by
      simp only [Definition.cmakeExt, h.cmakeExt hlookup]
    rw [register, hlookup]
    simp only [hbuild, BuildFault.isLookup, if_true, hidl]
    exact ⟨_, rfl⟩

end Engine
end DocHighlighter
