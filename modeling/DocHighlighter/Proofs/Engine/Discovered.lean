/-
# Discovering definitions

Modules are visited one after the other, and what one of them holds is of no account for the others:
the definitions that are found are those of the modules on their own (`GrammarModule.definition?`),
and so is what is said about them (`GrammarModule.report`).

| the module | adds | is reported |
|---|---|---|
| fails to load | nothing | as an error |
| has no definition | nothing | not |
| has something else in its place | nothing | with a warning |
| has a definition | it | not |
| is one of the tools | nothing | not |

Definitions are kept by their names.  A later one takes the place of an earlier one with its name, so
in the end there is the last of each name (`Definition.find?_insertAll`), and the names stand in the
order in which they turned up (`Definition.map_name_insertAll`).
-/

import DocHighlighter.Proofs.Engine.Settling

namespace DocHighlighter

namespace GrammarModule

/-- The definition that a module adds, if it adds one. -/
def definition? (m : GrammarModule) : Option Definition :=
  if Definition.isTool m.name then none
  else match m.content with
    | .definition d => some d
    | .broken => none
    | .noDefinition => none
    | .malformed => none

/-- What is said about a module. -/
def report (m : GrammarModule) : Log :=
  if Definition.isTool m.name then []
  else match m.content with
    | .broken => [⟨.error, "Failed to import grammar module: " ++ m.name⟩]
    | .malformed =>
      [⟨.warning,
        "Module " ++ m.name ++ " has 'definition' but doesn't implement GrammarDefinition"⟩]
    | .noDefinition => []
    | .definition _ => []

/-- A module is at fault: it fails to load, or has something else where a definition should be. -/
structure IsFaulty (m : GrammarModule) : Prop where
  not_tool : Definition.isTool m.name = false
  content : m.content = .broken ∨ m.content = .malformed

/-- A module is passed over without a word: it is a tool, or has no definition. -/
def IsPassedOver (m : GrammarModule) : Prop :=
  Definition.isTool m.name = true ∨ m.content = .noDefinition

variable {m : GrammarModule}

theorem IsFaulty.definition? (h : m.IsFaulty) : m.definition? = none := by
  obtain ⟨htool, hcontent | hcontent⟩ := h <;> simp [GrammarModule.definition?, htool, hcontent]

/-- One thing is said about a module that is at fault. -/
theorem IsFaulty.exists_report (h : m.IsFaulty) : ∃ record, m.report = [record] := by
  obtain ⟨htool, hcontent | hcontent⟩ := h <;> simp [report, htool, hcontent]

theorem IsPassedOver.eq (h : m.IsPassedOver) : m.definition? = none ∧ m.report = [] := by
  obtain htool | hcontent := h
  · simp [GrammarModule.definition?, report, htool]
  · simp [GrammarModule.definition?, report, hcontent]

end GrammarModule

namespace Definition

open GrammarModule (definition? report IsFaulty IsPassedOver)

variable {known : List Definition} {name : String}

/-! ## One definition after the other -/

/-- Takes definitions in one after the other. -/
def insertAll (known ds : List Definition) : List Definition :=
  ds.foldl (fun known d => d.insert known) known

theorem insertAll_append (known ds more : List Definition) :
    insertAll known (ds ++ more) = insertAll (insertAll known ds) more :=
  List.foldl_append

/-- A name stands for the definition that was taken in last under it. -/
theorem find?_insert (d : Definition) (known : List Definition) (name : String) :
    (d.insert known).find? (·.name == name) =
      if d.name = name then some d else known.find? (·.name == name) := by
  have hmap : (known.map fun k => if k.name == d.name then d else k).find? (·.name == name) =
      if d.name = name then (known.find? (·.name == d.name)).map fun _ => d
      else known.find? (·.name == name) := by
    induction known with
    | nil => simp
    | cons k rest ih =>
      rw [List.map_cons, List.find?_cons, ih, List.find?_cons, List.find?_cons]
      by_cases hk : k.name = d.name
      · by_cases hd : d.name = name <;> simp [hk, hd, beq_eq_false_iff_ne.2]
      · by_cases hd : d.name = name
        · simp [← hd, hk, beq_eq_false_iff_ne.2]
        · simp [hk, hd]
  unfold insert
  split
  · next hany =>
    obtain ⟨k, hk⟩ := Option.isSome_iff_exists.1 (List.find?_isSome.2 (List.any_eq_true.1 hany))
    rw [hmap, hk]
    rfl
  · next hany =>
    have hnone : known.find? (·.name == d.name) = none :=
      List.find?_eq_none.2 fun k hk he => hany (List.any_eq_true.2 ⟨k, hk, he⟩)
    rw [List.find?_append]
    by_cases hd : d.name = name
    · subst hd
      simp [hnone]
    · simp [hd]

/-- **The last definition of a name counts.** -/
theorem find?_insertAll (known ds : List Definition) (name : String) :
    (insertAll known ds).find? (·.name == name) =
      (ds.reverse.find? (·.name == name)).or (known.find? (·.name == name)) := by
  induction ds generalizing known with
  | nil => rfl
  | cons d rest ih =>
    rw [insertAll, List.foldl_cons, ← insertAll, ih, find?_insert, List.reverse_cons,
      List.find?_append, Option.or_assoc]
    congr 1
    by_cases hd : d.name = name <;> simp [hd]

/-- **The names stand in the order in which they turn up,** those that were there before at their
places. -/
theorem map_name_insertAll (known ds : List Definition) :
    (insertAll known ds).map (·.name) = known.map (·.name) ++
      ((ds.map (·.name)).filter (· ∉ known.map (·.name))).eraseDups := by
  induction ds generalizing known with
  | nil => exact (List.append_nil _).symm
  | cons d rest ih =>
    rw [insertAll, List.foldl_cons, ← insertAll, ih, map_name_insert, List.map_cons]
    split
    · next hmem => rw [List.filter_cons_of_neg (by simpa using hmem)]
    · next hfree =>
      rw [List.filter_cons_of_pos (by simpa using hfree), List.eraseDups_cons, List.filter_filter,
        List.append_assoc, List.singleton_append]
      congr 3
      refine List.filter_congr fun n _ => ?_
      simp only [List.mem_append, List.mem_singleton, not_or, Bool.decide_and]
      rw [Bool.and_comm, decide_not, ← Bool.beq_eq_decide_eq]

/-! ## One module after the other -/

theorem discoverOne_eq (known : List Definition) (m : GrammarModule) :
    discoverOne known m = (insertAll known m.definition?.toList, m.report) := by
  unfold discoverOne definition? report
  split
  · rfl
  · cases m.content <;> rfl

/-- **Each module counts on its own:** for the definitions, and for what is said. -/
theorem discover_eq (known : List Definition) (modules : List GrammarModule) :
    discover known modules =
      (insertAll known (modules.filterMap definition?), modules.flatMap report) := by
  induction modules generalizing known with
  | nil => rfl
  | cons m rest ih =>
    rw [discover, discoverOne_eq]
    dsimp only
    rw [ih, ← insertAll_append, List.flatMap_cons]
    cases hm : m.definition? <;> simp [hm]

/-- A module without a definition adds to what is said only. -/
theorem discover_insert {m : GrammarModule} (hm : m.definition? = none)
    (before after : List GrammarModule) :
    discover known (before ++ m :: after) = ((discover known (before ++ after)).1,
      before.flatMap report ++ m.report ++ after.flatMap report) := by
  rw [discover_eq, discover_eq]
  simp [hm]

/-- The tools of a package, which are no grammars. -/
theorem isTool_append (package : String) :
    isTool (package ++ ".model") = true ∧ isTool (package ++ ".compile") = true := by
  simp [isTool, List.isSuffixOf_iff_suffix]

/-- **Discovering keeps bad modules apart from the others.**  Whatever the modules hold, each name
has the last definition of that name, and the names stand in the order in which they turned up, behind
those that were known before.  A module at fault, put in anywhere, adds one record to the log and
changes nothing else; a tool or a module without a definition changes nothing at all, and tools are
the modules of the data model and of the compiler. -/
theorem discover_isolates (known : List Definition) (modules : List GrammarModule) :
    (∀ name, (discover known modules).1.find? (·.name == name) =
      ((modules.filterMap definition?).reverse.find? (·.name == name)).or
        (known.find? (·.name == name))) ∧
    (discover known modules).1.map (·.name) = known.map (·.name) ++
      (((modules.filterMap definition?).map (·.name)).filter
        (· ∉ known.map (·.name))).eraseDups ∧
    (∀ before m after, modules = before ++ m :: after → m.IsFaulty →
      ∃ ds log record more, discover known (before ++ after) = (ds, log ++ more) ∧
        discover known modules = (ds, log ++ record :: more)) ∧
    (∀ before m after, modules = before ++ m :: after → m.IsPassedOver →
      discover known modules = discover known (before ++ after)) ∧
    ∀ package content, (⟨package ++ ".model", content⟩ : GrammarModule).IsPassedOver ∧
      (⟨package ++ ".compile", content⟩ : GrammarModule).IsPassedOver := by
  refine ⟨fun name => ?_, ?_, ?_, ?_, fun package content => ?_⟩
  · rw [discover_eq, find?_insertAll]
  · rw [discover_eq, map_name_insertAll]
  · rintro before m after rfl hm
    obtain ⟨record, hrecord⟩ := hm.exists_report
    refine ⟨(discover known (before ++ after)).1, before.flatMap report, record,
      after.flatMap report, ?_, ?_⟩
    · rw [discover_eq, List.flatMap_append]
    · rw [discover_insert hm.definition?, hrecord, List.append_assoc, List.singleton_append]
  · rintro before m after rfl hm
    obtain ⟨hnone, hreport⟩ := hm.eq
    rw [discover_insert hnone, hreport, discover_eq, List.append_nil, List.flatMap_append]
  · exact ⟨.inl (isTool_append package).1, .inl (isTool_append package).2⟩

/-- Between two modules that define one language stands one that fails to load: without it the same
definitions are found, and its failure is all that is said. -/
theorem discover_isolates_brokenBetween :
    let first : GrammarModule := ⟨"grammars.first", .definition idl⟩
    let broken : GrammarModule := ⟨"grammars.hollow", .broken⟩
    let last : GrammarModule := ⟨"grammars.last", .definition { cmakeExt with name := "idl" }⟩
    let tool : GrammarModule := ⟨"grammars.model", .definition cmakeExt⟩
    let modules := [first, broken, last, tool]
    (∃ ds log record more, discover [] [first, last, tool] = (ds, log ++ more) ∧
      discover [] modules = (ds, log ++ record :: more)) ∧
    discover [] modules = discover [] [first, broken, last] ∧
    (discover [] modules).1.find? (·.name == "idl") = some { cmakeExt with name := "idl" } ∧
    (discover [] modules).1.map (·.name) = ["idl"] := by
  intro first broken last tool modules
  have hfirst : definition? first = some idl := if_neg (by decide)
  have hbroken : definition? broken = none := if_neg (by decide)
  have hlast : definition? last = some { cmakeExt with name := "idl" } := if_neg (by decide)
  have htool : definition? tool = none := if_pos (by decide)
  have hds : modules.filterMap definition? = [idl, { cmakeExt with name := "idl" }] := by
    simp [modules, hfirst, hbroken, hlast, htool]
  obtain ⟨hfind, hnames, hfaulty, hpassed, -⟩ := discover_isolates [] modules
  exact ⟨hfaulty [first] broken [last, tool] rfl ⟨by decide, .inl rfl⟩,
    hpassed [first, broken, last] tool [] rfl (.inl (by decide)),
    (hfind "idl").trans (by rw [hds]; rfl), hnames.trans (by rw [hds]; decide)⟩

end Definition
end DocHighlighter
