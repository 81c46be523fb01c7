/-
# Registering in one call

A definition makes its grammar on its own, or from the grammar that a name stands for, and
fails if the name stands for none (`Recipe`).  Registering tries every definition once, in
order; one that fails is passed over, although a later one may supply what it needs.

So one call does not always do what can be done.  What it does depends on whether it makes
a definition ready that was not ready before it (`Engine.MakesNothingReady`).  This decides
both whether a second call finds nothing to do and whether the order of the definitions is
of no account (`Engine.settlesAtOnce_iff`): a definition that becomes ready is registered
if it comes late, and left for the second call if it comes first.

The definitions that come with the library make nothing ready, on any engine
(`Engine.settlesAtOnce_standard`).  Add one that supplies CMake, and they do
(`Engine.not_forall_settlesAtOnce`).
-/

import DocHighlighter.Proofs.Engine.Meaning
import Mathlib.Tactic.ByContra

namespace DocHighlighter

/-! ## Recipes -/

/-- How a grammar is made: on its own, or from the grammar that a name stands for. -/
inductive Recipe where
  | standalone (g : Grammar)
  | derived (base : String) (missing : { fault : BuildFault // fault.isLookup = true })
      (extend : Grammar → Grammar)

/-- Makes the grammar, or says that what it is made from is not there. -/
def Recipe.build : Recipe → GrammarFactory
  | standalone g => fun _ => .ok g
  | derived base missing extend => fun e =>
    match e.get? base with
    | some g => .ok (extend g)
    | none => .error missing.1

/-- A name that stands for a grammar goes on to stand for one. -/
theorem Engine.Grows.get?_ne_none {e e' : Engine} (h : e.Grows e') {name : String}
    (hget : e.get? name ≠ none) : e'.get? name ≠ none := by
  obtain ⟨g, hg⟩ := Option.ne_none_iff_exists'.1 hget
  by_cases hname : name ∈ e'.names
  · obtain ⟨g', hg'⟩ := exists_lookup_of_mem hname
    simp [get?, hg']
  · rw [h.get?_of_alias hg hname]
    exact hget

namespace Definition

/-- A definition that makes its grammar by a recipe. -/
def HasRecipe (d : Definition) : Prop :=
  ∃ r : Recipe, d.build = r.build

/-- What a definition needs is there. -/
def IsReady (d : Definition) (e : Engine) : Prop :=
  ∃ g, d.build e = .ok g

variable {d : Definition} {e e' : Engine}

theorem HasRecipe.isLookup {fault : BuildFault} (h : d.HasRecipe)
    (hbuild : d.build e = .error fault) : fault.isLookup = true := by
  obtain ⟨r, hr⟩ := h
  rw [hr] at hbuild
  cases r with
  | standalone g => cases hbuild
  | derived base missing extend =>
    simp only [Recipe.build] at hbuild
    split at hbuild
    · cases hbuild
    · exact Except.error.inj hbuild ▸ missing.2

/-- What a definition needs is still there when the engine has more languages. -/
theorem HasRecipe.isReady_of_grows (h : d.HasRecipe) (hgrows : e.Grows e') (hready : d.IsReady e) :
    d.IsReady e' := by
  obtain ⟨r, hr⟩ := h
  unfold IsReady at hready ⊢
  rw [hr] at hready ⊢
  cases r with
  | standalone g => exact ⟨g, rfl⟩
  | derived base missing extend =>
    have hbase : e.get? base ≠ none := by
      intro hnone
      simp [Recipe.build, hnone] at hready
    obtain ⟨g, hg⟩ := Option.ne_none_iff_exists'.1 (hgrows.get?_ne_none hbase)
    exact ⟨extend g, by simp only [Recipe.build, hg]⟩

theorem not_isReady_iff : ¬ d.IsReady e ↔ ∃ fault, d.build e = .error fault := by
  unfold IsReady
  cases d.build e <;> simp

end Definition

namespace Engine

variable {e e' : Engine} {d : Definition} {ds : List Definition} {name : String}

/-! ## One definition after the other -/

/-- The engine after a definition has been tried. -/
def tried (e : Engine) (d : Definition) : Engine :=
  Call.after e (.register d.name d.build)

/-- The engine after definitions have been tried, one after the other. -/
def triedAll (e : Engine) (ds : List Definition) : Engine :=
  ds.foldl tried e

theorem grows_tried (e : Engine) (d : Definition) : e.Grows (e.tried d) :=
  Call.grows rfl e

theorem grows_triedAll (e : Engine) (ds : List Definition) : e.Grows (e.triedAll ds) := by
  induction ds generalizing e with
  | nil => exact .refl e
  | cons d rest ih => exact (e.grows_tried d).trans (ih _)

theorem triedAll_append (e : Engine) (ds more : List Definition) :
    e.triedAll (ds ++ more) = (e.triedAll ds).triedAll more :=
  List.foldl_append

/-- A definition whose name is taken is of no account. -/
theorem tried_of_mem (h : d.name ∈ e.names) : e.tried d = e := by
  obtain ⟨g, hg⟩ := exists_lookup_of_mem h
  simp only [tried, Call.after, register, hg]

/-- Nor is one that needs something which is not there. -/
theorem tried_of_not_isReady (h : ¬ d.IsReady e) : e.tried d = e := by
  by_cases hname : d.name ∈ e.names
  · exact tried_of_mem hname
  · obtain ⟨fault, hfault⟩ := Definition.not_isReady_iff.1 h
    simp only [tried, Call.after, register, lookup_eq_none_iff.2 hname, hfault]

/-- Trying a definition adds its name if it is ready. -/
theorem mem_names_tried :
    name ∈ (e.tried d).names ↔ name ∈ e.names ∨ name = d.name ∧ d.IsReady e := by
  by_cases hname : d.name ∈ e.names
  · rw [tried_of_mem hname]
    exact ⟨.inl, fun h => h.elim id fun hd => hd.1 ▸ hname⟩
  · by_cases hready : d.IsReady e
    · obtain ⟨g, hg⟩ := hready
      have htried : e.tried d = { e with languages := e.languages ++ [(d.name, g)] } := by
        simp only [tried, Call.after, register, lookup_eq_none_iff.2 hname, hg]
      have hready : d.IsReady e := ⟨g, hg⟩
      simp [htried, names, hready]
    · simp [tried_of_not_isReady hready, hready]

theorem Grows.mem_names (h : e.Grows e') (hname : name ∈ e.names) : name ∈ e'.names := by
  obtain ⟨more, hmore⟩ := h.languages
  rw [names, ← hmore, List.map_append]
  exact List.mem_append_left _ hname

/-- A definition that is ready at its turn has its name in the table afterwards. -/
theorem mem_names_of_turn {before after : List Definition} (h : d.IsReady (e.triedAll before)) :
    d.name ∈ (e.triedAll (before ++ d :: after)).names := by
  rw [triedAll_append]
  exact (grows_triedAll _ after).mem_names (mem_names_tried.2 (.inr ⟨rfl, h⟩))

/-- A definition that is ready from the beginning is ready at its turn. -/
theorem mem_names_of_isReady (hrecipe : d.HasRecipe) (hd : d ∈ ds) (hready : d.IsReady e) :
    d.name ∈ (e.triedAll ds).names := by
  obtain ⟨before, after, rfl⟩ := List.append_of_mem hd
  exact mem_names_of_turn (hrecipe.isReady_of_grows (grows_triedAll e before) hready)

/-- A name in the table was there, or it is that of a definition that is ready. -/
theorem mem_names_or_of_triedAll (hrecipe : ∀ d ∈ ds, d.HasRecipe)
    (h : name ∈ (e.triedAll ds).names) :
    name ∈ e.names ∨ ∃ d ∈ ds, d.name = name ∧ d.IsReady (e.triedAll ds) := by
  induction ds generalizing e with
  | nil => exact .inl h
  | cons d rest ih =>
    obtain hname | ⟨d', hd', hname, hready⟩ :=
      ih (fun d' hd' => hrecipe d' (List.mem_cons_of_mem _ hd')) h
    · obtain hname | ⟨rfl, hready⟩ := mem_names_tried.1 hname
      · exact .inl hname
      · exact .inr ⟨d, List.mem_cons_self, rfl,
          (hrecipe d List.mem_cons_self).isReady_of_grows (grows_triedAll e _) hready⟩
    · exact .inr ⟨d', List.mem_cons_of_mem _ hd', hname, hready⟩

/-- Trying definitions changes nothing exactly if those that are ready have their names taken. -/
theorem triedAll_eq_self_iff (hrecipe : ∀ d ∈ ds, d.HasRecipe) :
    e.triedAll ds = e ↔ ∀ d ∈ ds, d.IsReady e → d.name ∈ e.names := by
  constructor
  · intro h d hd hready
    exact h ▸ mem_names_of_isReady (hrecipe d hd) hd hready
  · intro h
    clear hrecipe
    induction ds with
    | nil => rfl
    | cons d rest ih =>
      have hsame : e.tried d = e := by
        by_cases hready : d.IsReady e
        · exact tried_of_mem (h d List.mem_cons_self hready)
        · exact tried_of_not_isReady hready
      rw [triedAll, List.foldl_cons, hsame]
      exact ih fun d' hd' => h d' (List.mem_cons_of_mem _ hd')

/-- A call tries the definitions one after the other, and answers with the names that this adds to
the table. -/
theorem exists_registerAll_tried (hrecipe : ∀ d ∈ ds, d.HasRecipe) (e : Engine) :
    ∃ added log, e.registerAll ds = (.ok added, e.triedAll ds, log) ∧
      (e.triedAll ds).names = e.names ++ added := by
  induction ds generalizing e with
  | nil => exact ⟨[], [], rfl, (List.append_nil _).symm⟩
  | cons d rest ih =>
    obtain ⟨added, log, hrest, hnames⟩ :=
      ih (fun d' hd' => hrecipe d' (List.mem_cons_of_mem _ hd')) (e.tried d)
    rw [registerAll, triedAll, List.foldl_cons, ← triedAll]
    cases hlookup : e.languages.lookup d.name with
    | some g =>
      have htaken : e.languages.lookup d.name ≠ none := by simp [hlookup]
      have htried : e.tried d = e := by rw [tried, Call.after, register_of_lookup htaken]
      rw [htried] at hrest hnames ⊢
      simp only [register_of_lookup htaken, hrest]
      exact ⟨added, log, rfl, hnames⟩
    | none =>
      cases hbuild : d.build e with
      | ok g =>
        have hregister : e.register d.name d.build =
            .ok (true, { e with languages := e.languages ++ [(d.name, g)] }) := by
          rw [register, hlookup]
          simp only [hbuild]
        have htried : e.tried d = { e with languages := e.languages ++ [(d.name, g)] } := by
          rw [tried, Call.after, hregister]
        rw [htried] at hrest hnames ⊢
        simp only [hregister, hrest]
        refine ⟨d.name :: added, log, rfl, ?_⟩
        rw [hnames]
        simp [names]
      | error fault =>
        have hregister : e.register d.name d.build = .error fault := by
          rw [register, hlookup]
          simp only [hbuild]
        have htried : e.tried d = e := by rw [tried, Call.after, hregister]
        rw [htried] at hrest hnames ⊢
        simp only [hregister, (hrecipe d List.mem_cons_self).isLookup hbuild, if_true, hrest]
        exact ⟨added, _, rfl, hnames⟩

theorem after_registerAll (hrecipe : ∀ d ∈ ds, d.HasRecipe) (e : Engine) :
    Call.after e (.registerAll ds) = e.triedAll ds := by
  obtain ⟨added, log, hcall, -⟩ := exists_registerAll_tried hrecipe e
  rw [Call.after, hcall]

/-- A call finds nothing to do exactly if trying the definitions changes nothing. -/
theorem registerAll_idle_iff (hrecipe : ∀ d ∈ ds, d.HasRecipe) :
    (∃ log, e.registerAll ds = (.ok [], e, log)) ↔ e.triedAll ds = e := by
  obtain ⟨added, log, hcall, hnames⟩ := exists_registerAll_tried hrecipe e
  rw [hcall]
  constructor
  · rintro ⟨log', h⟩
    exact congrArg (fun r => r.2.1) h
  · intro h
    rw [h] at hnames
    obtain rfl : added = [] := by simpa using hnames
    exact ⟨log, by rw [h]⟩

/-! ## One call, and another one -/

/-- Registering ends without a fault, and doing it again answers with no name and changes nothing:
this for every order of the definitions. -/
def SettlesAtOnce (e : Engine) (ds : List Definition) : Prop :=
  ∀ order : List Definition, order.Perm ds →
    (∃ added log, e.registerAll order = (.ok added, Call.after e (.registerAll order), log)) ∧
      ∃ log, (Call.after e (.registerAll order)).registerAll order =
        (.ok [], Call.after e (.registerAll order), log)

/-- The names in the table after registering do not depend on the order of the definitions. -/
def IgnoresOrder (e : Engine) (ds : List Definition) : Prop :=
  ∀ order order' : List Definition, order.Perm ds → order'.Perm ds → ∀ name,
    name ∈ (Call.after e (.registerAll order)).names ↔
      name ∈ (Call.after e (.registerAll order')).names

/-- In no order does registering make a definition ready that was not, and whose name is free. -/
def MakesNothingReady (e : Engine) (ds : List Definition) : Prop :=
  ∀ order : List Definition, order.Perm ds → ∀ d ∈ ds, d.name ∉ e.names →
    d.IsReady (Call.after e (.registerAll order)) → d.IsReady e

section Orders

variable (hrecipe : ∀ d ∈ ds, d.HasRecipe)
include hrecipe

theorem after_registerAll_of_perm {order : List Definition} (hperm : order.Perm ds) :
    Call.after e (.registerAll order) = e.triedAll order :=
  after_registerAll (fun d hd => hrecipe d (hperm.mem_iff.1 hd)) e

/-- A second call finds nothing to do if what is ready after the first one is registered. -/
theorem settlesAtOnce_iff_triedAll : e.SettlesAtOnce ds ↔
    ∀ order : List Definition, order.Perm ds →
      ∀ d ∈ ds, d.IsReady (e.triedAll order) → d.name ∈ (e.triedAll order).names := by
  refine forall₂_congr fun order hperm => ?_
  have horder : ∀ d ∈ order, d.HasRecipe := fun d hd => hrecipe d (hperm.mem_iff.1 hd)
  obtain ⟨added, log, hcall, -⟩ := exists_registerAll_tried horder e
  rw [after_registerAll horder, registerAll_idle_iff horder, triedAll_eq_self_iff horder]
  simp only [hperm.mem_iff]
  exact and_iff_right ⟨added, log, hcall⟩

/-- If nothing is made ready, the table has afterwards the names of what was ready before. -/
theorem MakesNothingReady.mem_names_iff (h : e.MakesNothingReady ds) {order : List Definition}
    (hperm : order.Perm ds) :
    name ∈ (e.triedAll order).names ↔ name ∈ e.names ∨ ∃ d ∈ ds, d.name = name ∧ d.IsReady e := by
  constructor
  · intro hname
    by_cases hfree : name ∈ e.names
    · exact .inl hfree
    · obtain htaken | ⟨d, hd, rfl, hready⟩ := mem_names_or_of_triedAll
        (fun d hd => hrecipe d (hperm.mem_iff.1 hd)) hname
      · exact absurd htaken hfree
      · rw [← after_registerAll_of_perm hrecipe hperm] at hready
        have hd := hperm.mem_iff.1 hd
        exact .inr ⟨d, hd, rfl, h order hperm d hd hfree hready⟩
  · rintro (hname | ⟨d, hd, rfl, hready⟩)
    · exact (grows_triedAll e order).mem_names hname
    · exact mem_names_of_isReady (hrecipe d hd) (hperm.mem_iff.2 hd) hready

theorem MakesNothingReady.settlesAtOnce (h : e.MakesNothingReady ds) : e.SettlesAtOnce ds := by
  refine (settlesAtOnce_iff_triedAll hrecipe).2 fun order hperm d hd hready => ?_
  rw [h.mem_names_iff hrecipe hperm]
  by_cases hfree : d.name ∈ e.names
  · exact .inl hfree
  · rw [← after_registerAll_of_perm hrecipe hperm] at hready
    exact .inr ⟨d, hd, rfl, h order hperm d hd hfree hready⟩

theorem MakesNothingReady.ignoresOrder (h : e.MakesNothingReady ds) : e.IgnoresOrder ds := by
  intro order order' hperm hperm' name
  rw [after_registerAll_of_perm hrecipe hperm, after_registerAll_of_perm hrecipe hperm',
    h.mem_names_iff hrecipe hperm, h.mem_names_iff hrecipe hperm']

omit hrecipe in
/-- A definition that becomes ready is ready at its turn in some order. -/
theorem exists_turn {order : List Definition} (hperm : order.Perm ds) (hd : d ∈ ds)
    (hready : d.IsReady (e.triedAll order)) :
    ∃ before after, (before ++ d :: after).Perm ds ∧ d.IsReady (e.triedAll before) := by
  obtain ⟨before, after, rfl⟩ := List.append_of_mem (hperm.mem_iff.2 hd)
  by_cases hturn : d.IsReady (e.triedAll before)
  · exact ⟨before, after, hperm, hturn⟩
  · -- At its turn nothing happens, so it can as well be tried at the end.
    refine ⟨before ++ after, [], (List.perm_middle.trans ?_).trans hperm, ?_⟩
    · rw [List.append_nil]
      exact List.perm_middle.symm
    · rw [triedAll_append, triedAll, List.foldl_cons, tried_of_not_isReady hturn] at hready
      rwa [triedAll_append]

/-- A definition that becomes ready is registered if it is late enough, and not registered if it is
tried first, when it is ready only afterwards. -/
theorem exists_early_late (hnodup : (ds.map (·.name)).Nodup) {order : List Definition}
    (hperm : order.Perm ds) (hd : d ∈ ds) (hfree : d.name ∉ e.names)
    (hready : d.IsReady (e.triedAll order)) (hunready : ¬ d.IsReady e) :
    ∃ early late : List Definition, early.Perm ds ∧ late.Perm ds ∧
      d.name ∈ (e.triedAll late).names ∧ d.name ∉ (e.triedAll early).names ∧
      d.IsReady (e.triedAll early) := by
  obtain ⟨before, after, hlate, hturn⟩ := exists_turn hperm hd hready
  have hearly : (d :: (before ++ after)).Perm ds := List.perm_middle.symm.trans hlate
  have hsame : e.triedAll (d :: (before ++ after)) = (e.triedAll before).triedAll after := by
    rw [triedAll, List.foldl_cons, tried_of_not_isReady hunready, ← triedAll, triedAll_append]
  refine ⟨_, _, hearly, hlate, mem_names_of_turn hturn, ?_, ?_⟩
  · intro hname
    rw [hsame, ← triedAll_append] at hname
    have hrest : ∀ d' ∈ before ++ after, d'.HasRecipe := fun d' hd' =>
      hrecipe d' (hearly.mem_iff.1 (List.mem_cons_of_mem _ hd'))
    obtain htaken | ⟨d', hd', hsame, -⟩ := mem_names_or_of_triedAll hrest hname
    · exact hfree htaken
    · have hnames := (hearly.map (·.name)).nodup_iff.2 hnodup
      exact (List.nodup_cons.1 hnames).1 (List.mem_map.2 ⟨d', hd', hsame⟩)
  · rw [hsame]
    exact (hrecipe d hd).isReady_of_grows (grows_triedAll _ after) hturn

theorem SettlesAtOnce.makesNothingReady (h : e.SettlesAtOnce ds)
    (hnodup : (ds.map (·.name)).Nodup) : e.MakesNothingReady ds := by
  intro order hperm d hd hfree hready
  rw [after_registerAll_of_perm hrecipe hperm] at hready
  by_contra hunready
  obtain ⟨early, late, hearly, -, -, hmissing, hready⟩ :=
    exists_early_late hrecipe hnodup hperm hd hfree hready hunready
  exact hmissing ((settlesAtOnce_iff_triedAll hrecipe).1 h early hearly d hd hready)

theorem IgnoresOrder.makesNothingReady (h : e.IgnoresOrder ds)
    (hnodup : (ds.map (·.name)).Nodup) : e.MakesNothingReady ds := by
  intro order hperm d hd hfree hready
  rw [after_registerAll_of_perm hrecipe hperm] at hready
  by_contra hunready
  obtain ⟨early, late, hearly, hlate, hfound, hmissing, -⟩ :=
    exists_early_late hrecipe hnodup hperm hd hfree hready hunready
  have hnames := h early late hearly hlate d.name
  rw [after_registerAll_of_perm hrecipe hearly, after_registerAll_of_perm hrecipe hlate] at hnames
  exact hmissing (hnames.2 hfound)

end Orders

end Engine

/-! ## What is supplied -/

namespace Definition

/-- A definition cannot make its grammar where a name stands for none. -/
def Needs (d : Definition) (base : String) : Prop :=
  ∀ e : Engine, d.IsReady e → e.get? base ≠ none

/-- A definition can make a name stand for its grammar. -/
def Supplies (d : Definition) (base : String) : Prop :=
  d.name = base ∨ ∃ (e : Engine) (g : Grammar), d.build e = .ok g ∧ base ∈ g.aliases

theorem needs_cmakeExt : cmakeExt.Needs "cmake" := by
  rintro e ⟨g, hg⟩ hnone
  simp [cmakeExt, hnone] at hg

theorem not_supplies_idl : ¬ idl.Supplies "cmake" := by
  rintro (hname | ⟨e, g, hg, halias⟩)
  · exact absurd hname (by decide)
  · obtain rfl : Language.Idl.grammar = g := Except.ok.inj hg
    exact absurd halias (by decide)

theorem hasRecipe_standard : ∀ d ∈ standard, d.HasRecipe := by
  intro d hd
  obtain rfl | rfl : d = cmakeExt ∨ d = idl := by simpa [standard] using hd
  · refine ⟨.derived "cmake" ⟨.unavailable "Base grammar 'cmake' is not available", rfl⟩
      fun base => { base with
        name := "cmake-ext"
        displayName := "CMakeExt"
        keywords := Grammar.wordSet ("idlc_compile" :: base.keywords)
        filenames := []
        derivedFrom := some base.name }, ?_⟩
    funext e
    simp only [cmakeExt, Recipe.build]
    cases e.get? "cmake" <;> rfl
  · exact ⟨.standalone Language.Idl.grammar, rfl⟩

theorem map_name_insert (d : Definition) (known : List Definition) :
    (d.insert known).map (·.name) =
      if d.name ∈ known.map (·.name) then known.map (·.name) else known.map (·.name) ++ [d.name] := by
  have hany : known.any (·.name == d.name) = true ↔ d.name ∈ known.map (·.name) := by
    simp only [List.any_eq_true, beq_iff_eq, List.mem_map]
  unfold insert
  by_cases hknown : known.any (·.name == d.name) = true
  · rw [if_pos hknown, if_pos (hany.1 hknown), List.map_map]
    refine List.map_congr_left fun k _ => ?_
    dsimp only [Function.comp_apply]
    split
    · next hname => exact (beq_iff_eq.1 hname).symm
    · rfl
  · rw [if_neg hknown, if_neg fun hmem => hknown (hany.2 hmem), List.map_append]
    rfl

theorem nodup_insert {d : Definition} {known : List Definition}
    (h : (known.map (·.name)).Nodup) : ((d.insert known).map (·.name)).Nodup := by
  rw [map_name_insert]
  split
  · exact h
  · next hfree => exact List.nodup_append.2 ⟨h, List.nodup_singleton _, fun name hname _ hd =>
      (List.mem_singleton.1 hd).symm ▸ fun he => hfree (he ▸ hname)⟩

/-- Definitions that are discovered have names of their own. -/
theorem nodup_discover {known : List Definition} (h : (known.map (·.name)).Nodup)
    (modules : List GrammarModule) : ((discover known modules).1.map (·.name)).Nodup := by
  induction modules generalizing known with
  | nil => exact h
  | cons m rest ih =>
    refine ih (?_ : ((discoverOne known m).1.map (·.name)).Nodup)
    unfold discoverOne
    split
    · exact h
    · split
      · exact h
      · exact h
      · exact h
      · exact nodup_insert h

theorem nodup_standard : (standard.map (·.name)).Nodup := by
  decide

end Definition

namespace Engine

variable {e : Engine} {ds : List Definition} {base : String}

theorem get?_append_eq_none {name : String} {g : Grammar} (hnone : e.get? base = none)
    (hname : name ≠ base) (halias : base ∉ g.aliases) :
    ({ e with languages := e.languages ++ [(name, g)] } : Engine).get? base = none := by
  cases hlookup : e.languages.lookup base with
  | some g' => simp [get?, hlookup] at hnone
  | none =>
    have hfind : (e.languages.find? fun l => l.2.aliases.contains base) = none := by
      simpa [get?, hlookup] using hnone
    have hne : (base == name) = false := by simpa using hname.symm
    have hcontains : g.aliases.contains base = false := by simpa using halias
    simp only [get?, List.lookup_append, hlookup, List.lookup_cons, hne, List.lookup_nil,
      Option.none_or, List.find?_append, hfind, List.find?_cons, hcontains, List.find?_nil,
      Option.map_none]

/-- A name that stands for nothing goes on to, if what could make it stand for something needs it. -/
theorem get?_triedAll_eq_none (hnone : e.get? base = none)
    (h : ∀ d ∈ ds, d.Supplies base → d.Needs base) : (e.triedAll ds).get? base = none := by
  induction ds generalizing e with
  | nil => exact hnone
  | cons d rest ih =>
    refine ih ?_ fun d' hd' => h d' (List.mem_cons_of_mem _ hd')
    by_cases hname : d.name ∈ e.names
    · rwa [tried_of_mem hname]
    · by_cases hready : d.IsReady e
      · have hsupplies : ¬ d.Supplies base := fun hs => h d List.mem_cons_self hs e hready hnone
        obtain ⟨g, hg⟩ := hready
        have htried : e.tried d = { e with languages := e.languages ++ [(d.name, g)] } := by
          simp only [tried, Call.after, register, lookup_eq_none_iff.2 hname, hg]
        rw [htried]
        exact get?_append_eq_none hnone (fun he => hsupplies (.inl he))
          fun ha => hsupplies (.inr ⟨e, g, hg, ha⟩)
      · rwa [tried_of_not_isReady hready]

/-- Nothing is made ready if every definition is ready, or needs a name that stands for nothing and
that no definition supplies without it. -/
theorem makesNothingReady_of_supplies (hrecipe : ∀ d ∈ ds, d.HasRecipe)
    (h : ∀ d ∈ ds, d.IsReady e ∨ ∃ base, d.Needs base ∧ e.get? base = none ∧
      ∀ d' ∈ ds, d'.Supplies base → d'.Needs base) : e.MakesNothingReady ds := by
  intro order hperm d hd _ hready
  obtain hready' | ⟨base, hneeds, hnone, hsupplies⟩ := h d hd
  · exact hready'
  · rw [after_registerAll_of_perm hrecipe hperm] at hready
    exact absurd (get?_triedAll_eq_none hnone fun d' hd' => hsupplies d' (hperm.mem_iff.1 hd'))
      (hneeds _ hready)

/-- The definitions that come with the library make nothing ready, on any engine. -/
theorem makesNothingReady_standard (e : Engine) : e.MakesNothingReady Definition.standard := by
  refine makesNothingReady_of_supplies Definition.hasRecipe_standard fun d hd => ?_
  obtain rfl | rfl : d = Definition.cmakeExt ∨ d = Definition.idl := by
    simpa [Definition.standard] using hd
  · cases hcmake : e.get? "cmake" with
    | some base => exact .inl ⟨_, by simp only [Definition.cmakeExt, hcmake]; rfl⟩
    | none =>
      refine .inr ⟨"cmake", Definition.needs_cmakeExt, hcmake, fun d' hd' hs => ?_⟩
      obtain rfl | rfl : d' = Definition.cmakeExt ∨ d' = Definition.idl := by
        simpa [Definition.standard] using hd'
      · exact Definition.needs_cmakeExt
      · exact absurd hs Definition.not_supplies_idl
  · exact .inl ⟨_, rfl⟩

/-- So one call registers of them what can be registered, in either order. -/
theorem settlesAtOnce_standard (e : Engine) :
    e.SettlesAtOnce Definition.standard ∧ e.IgnoresOrder Definition.standard :=
  ⟨(makesNothingReady_standard e).settlesAtOnce Definition.hasRecipe_standard,
    (makesNothingReady_standard e).ignoresOrder Definition.hasRecipe_standard⟩

/-! ## The exact condition -/

/-- **One call does what can be done,** in every order and with the same names in the table, exactly
if it makes no definition ready that was not ready before. -/
theorem settlesAtOnce_iff (hrecipe : ∀ d ∈ ds, d.HasRecipe) (hnodup : (ds.map (·.name)).Nodup)
    (e : Engine) :
    (e.SettlesAtOnce ds ↔ e.MakesNothingReady ds) ∧
      (e.IgnoresOrder ds ↔ e.MakesNothingReady ds) :=
  ⟨⟨fun h => h.makesNothingReady hrecipe hnodup, fun h => h.settlesAtOnce hrecipe⟩,
    ⟨fun h => h.makesNothingReady hrecipe hnodup, fun h => h.ignoresOrder hrecipe⟩⟩

/-- The definitions that come with the library, on an engine without languages. -/
theorem settlesAtOnce_iff_standard :
    (∀ d ∈ Definition.standard, d.HasRecipe) ∧ (Definition.standard.map (·.name)).Nodup ∧
      (({ languages := [] } : Engine).SettlesAtOnce Definition.standard ↔
        ({ languages := [] } : Engine).MakesNothingReady Definition.standard) ∧
      (({ languages := [] } : Engine).IgnoresOrder Definition.standard ↔
        ({ languages := [] } : Engine).MakesNothingReady Definition.standard) :=
  ⟨Definition.hasRecipe_standard, Definition.nodup_standard,
    settlesAtOnce_iff Definition.hasRecipe_standard Definition.nodup_standard _⟩

/-- A definition of CMake that needs nothing. -/
def plainCmake : Definition where
  name := "cmake"
  build := fun _ => .ok { name := "cmake", displayName := "cmake" }

/-- **One call does not always do what can be done:** CMake's extension is left for the second call
if CMake itself is registered after it. -/
theorem not_forall_settlesAtOnce :
    ¬ ∀ (e : Engine) (ds : List Definition), (∀ d ∈ ds, d.HasRecipe) →
      (ds.map (·.name)).Nodup → e.SettlesAtOnce ds ∧ e.IgnoresOrder ds := by
  intro h
  have hrecipe : ∀ d ∈ [Definition.cmakeExt, plainCmake], d.HasRecipe := by
    intro d hd
    obtain rfl | rfl : d = Definition.cmakeExt ∨ d = plainCmake := by simpa using hd
    · exact Definition.hasRecipe_standard _ List.mem_cons_self
    · exact ⟨.standalone _, rfl⟩
  obtain ⟨-, log, hagain⟩ :=
    (h { languages := [] } _ hrecipe (by decide)).1 _ (List.Perm.refl _)
  have hanswer : (some ["cmake-ext"] : Option (List String)) = some [] :=
    congrArg (fun r => r.1.toOption) hagain
  exact absurd hanswer (by decide)

end Engine
end DocHighlighter
