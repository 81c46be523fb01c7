/-
# The language table only grows

Whatever an engine is asked for, the languages that it has stay where they are in its
table, with their grammars, and new ones come after them (`Session.prefix_after`).  Only
registering adds languages.  What it does is said by `Engine.Registers`:

| the name | the factory | answer | afterwards |
|---|---|---|---|
| is in the table | is not called | no | the same engine |
| is free | is called once, builds a grammar | yes | the grammar at the end of the table |
| is free | is called once, fails | its fault | the same engine, kept lexers included |

The tables that an engine hands out are copies.  A session remembers them, so that it can
be asked to change one.
-/

import DocHighlighter.Proofs.Block.Settled
import DocHighlighter.Proofs.Engine.Coherent

namespace DocHighlighter

/-! ## Registering -/

namespace Engine

/-- Registers the grammar that a factory builds, where calling a factory may have effects. -/
def registerWith {m : Type → Type} [Monad m] (e : Engine) (name : String)
    (factory : Engine → m (Except BuildFault Grammar)) : m (Except BuildFault (Bool × Engine)) :=
  match e.languages.lookup name with
  | some _ => pure (.ok (false, e))
  | none => do
    match ← factory e with
    | .ok g => pure (.ok (true, { e with languages := e.languages ++ [(name, g)] }))
    | .error fault => pure (.error fault)

end Engine

/-- A factory that counts its calls. -/
def GrammarFactory.counted (factory : GrammarFactory) :
    Engine → StateM Nat (Except BuildFault Grammar) :=
  fun e calls => (factory e, calls + 1)

namespace Engine

/-- What registering a language does to an engine. -/
structure Registers (e : Engine) (name : String) (factory : GrammarFactory) : Prop where
  added : (∃ e', e.register name factory = .ok (true, e')) ↔
    name ∉ e.names ∧ ∃ g, factory e = .ok g
  atEnd : ∀ e', e.register name factory = .ok (true, e') →
    ∃ g, factory e = .ok g ∧ e' = { e with languages := e.languages ++ [(name, g)] }
  known : (∃ e', e.register name factory = .ok (false, e')) ↔ name ∈ e.names
  failed : ∀ fault, e.register name factory = .error fault ↔
    name ∉ e.names ∧ factory e = .error fault
  untouched : (∀ e', e.register name factory ≠ .ok (true, e')) →
    Call.after e (.register name factory) = e
  calls : (e.registerWith name factory.counted).run 0 =
    (e.register name factory, if name ∈ e.names then 0 else 1)

variable {e : Engine} {name : String} {factory : GrammarFactory}

/-- Without effects it is what an engine does. -/
theorem registerWith_id (e : Engine) (name : String) (factory : GrammarFactory) :
    e.registerWith (m := Id) name factory = e.register name factory := by
  unfold registerWith register
  cases e.languages.lookup name with
  | some g => rfl
  | none =>
    dsimp only [bind, pure]
    cases factory e <;> rfl

theorem lookup_eq_none_iff : e.languages.lookup name = none ↔ name ∉ e.names := by
  rw [List.lookup_eq_none_iff, names, List.mem_map]
  constructor
  · rintro h ⟨l, hl, rfl⟩
    simpa using h l hl
  · intro h l hl
    simpa using fun hname : name = l.1 => h ⟨l, hl, hname.symm⟩

theorem exists_lookup_of_mem (h : name ∈ e.names) : ∃ g, e.languages.lookup name = some g :=
  Option.ne_none_iff_exists'.1 fun hnone => lookup_eq_none_iff.1 hnone h

theorem registers (e : Engine) (name : String) (factory : GrammarFactory) :
    e.Registers name factory := by
  cases hlookup : e.languages.lookup name with
  | some g =>
    have hmem : name ∈ e.names := not_not.1 fun hfree => by
      simp [lookup_eq_none_iff.2 hfree] at hlookup
    have hanswer : e.register name factory = .ok (false, e) := by rw [register, hlookup]
    refine ⟨?_, ?_, ?_, ?_, ?_, ?_⟩
    · simp [hanswer, hmem]
    · simp [hanswer]
    · simp [hanswer, hmem]
    · simp [hanswer, hmem]
    · simp [Call.after, hanswer]
    · rw [if_pos hmem, registerWith, hlookup, hanswer]
      rfl
  | none =>
    have hfree : name ∉ e.names := lookup_eq_none_iff.1 hlookup
    cases hbuild : factory e with
    | ok g =>
      have hanswer : e.register name factory =
          .ok (true, { e with languages := e.languages ++ [(name, g)] }) := by
        rw [register, hlookup]
        simp only [hbuild]
      refine ⟨?_, ?_, ?_, ?_, ?_, ?_⟩
      · simp [hanswer, hfree, hbuild]
      · simp [hanswer, hbuild]
      · simp [hanswer, hfree]
      · simp [hanswer, hbuild]
      · simp [hanswer]
      · rw [if_neg hfree, registerWith, hlookup, hanswer]
        simp only [GrammarFactory.counted, StateT.run, bind, StateT.bind, hbuild]
        rfl
    | error fault =>
      have hanswer : e.register name factory = .error fault := by
        rw [register, hlookup]
        simp only [hbuild]
      refine ⟨?_, ?_, ?_, ?_, ?_, ?_⟩
      · simp [hanswer, hbuild]
      · simp [hanswer]
      · simp [hanswer, hfree]
      · simp [hanswer, hfree, hbuild]
      · simp [Call.after, hanswer]
      · rw [if_neg hfree, registerWith, hlookup, hanswer]
        simp only [GrammarFactory.counted, StateT.run, bind, StateT.bind, hbuild]
        rfl

end Engine

/-! ## Sessions -/

/-- An engine and the copies of its table that it has handed out. -/
structure Session where
  engine : Engine
  copies : List (List (String × Grammar)) := []

/-- What an engine can be asked for, and what can be done to the tables that it hands out. -/
inductive Session.Request where
  | call (c : Engine.Call)
  | get (name : String)
  | highlightAll (page : Html.Page)
  | grammars
  | change (copy : Nat) (edit : List (String × Grammar) → List (String × Grammar))

/-- The session after a request, whether or not it can be met. -/
def Session.Request.after (s : Session) : Session.Request → Session
  | call c => { s with engine := c.after s.engine }
  | get _ => s
  | highlightAll page => { s with engine := (page.highlight s.engine).2.engine }
  | grammars => { s with copies := s.copies ++ [s.engine.languages] }
  | change copy edit => { s with copies := s.copies.modify copy edit }

/-- The session after requests, one after the other. -/
def Session.after (s : Session) (requests : List Session.Request) : Session :=
  requests.foldl Session.Request.after s

namespace Engine

variable {e : Engine}

/-- An engine that has more languages, after those it had, and is otherwise the same. -/
structure Grows (e e' : Engine) : Prop where
  languages : e.languages <+: e'.languages
  lexers : e'.lexers = e.lexers

theorem Grows.refl (e : Engine) : e.Grows e :=
  ⟨List.prefix_rfl, rfl⟩

theorem Grows.trans {e' e'' : Engine} (h : e.Grows e') (h' : e'.Grows e'') : e.Grows e'' :=
  ⟨h.languages.trans h'.languages, h'.lexers.trans h.lexers⟩

/-- Registering adds languages and makes no lexers. -/
theorem grows_of_register {name : String} {factory : GrammarFactory} {added : Bool} {e' : Engine}
    (h : e.register name factory = .ok (added, e')) : e.Grows e' := by
  obtain ⟨-, rfl⟩ | ⟨g, -, -, rfl⟩ := register_cases h
  · exact .refl _
  · exact ⟨List.prefix_append .., rfl⟩

theorem grows_registerAll (e : Engine) (definitions : List Definition) :
    e.Grows (e.registerAll definitions).2.1 := by
  induction definitions generalizing e with
  | nil => exact .refl e
  | cons d rest ih =>
    rw [Engine.registerAll]
    cases hregister : e.register d.name d.build with
    | ok answer =>
      obtain ⟨added, e'⟩ := answer
      exact (grows_of_register hregister).trans (ih e')
    | error fault =>
      dsimp only
      split
      · exact ih e
      · exact .refl e

/-- Whether a call registers languages. -/
def Call.isRegistration : Call → Bool
  | .register .. => true
  | .registerAll _ => true
  | _ => false

theorem Call.grows {c : Call} (hc : c.isRegistration = true) (e : Engine) :
    e.Grows (c.after e) := by
  cases c with
  | register name factory =>
    rw [Call.after]
    split
    · next hregister => exact grows_of_register hregister
    · exact .refl e
  | registerAll definitions => exact grows_registerAll e definitions
  | lexer name => cases hc
  | tokenize code name => cases hc
  | highlight code name => cases hc

/-- A call leaves the table a beginning of the table after it. -/
theorem Call.prefix_after (c : Call) (e : Engine) : e.languages <+: (c.after e).languages := by
  cases c with
  | register name factory => exact (Call.grows rfl e).languages
  | registerAll definitions => exact (Call.grows rfl e).languages
  | lexer name => exact (languages_keepLexer e name).symm ▸ List.prefix_rfl
  | tokenize code name => exact (languages_keepLexer e name).symm ▸ List.prefix_rfl
  | highlight code name => exact (languages_keepLexer e name).symm ▸ List.prefix_rfl

end Engine

namespace Session

theorem prefix_request (s : Session) (r : Request) :
    s.engine.languages <+: (r.after s).engine.languages := by
  cases r with
  | call c => exact c.prefix_after s.engine
  | get name => exact List.prefix_rfl
  | highlightAll page =>
    exact (Highlighting.languages_highlight page s.engine).symm ▸ List.prefix_rfl
  | grammars => exact List.prefix_rfl
  | change copy edit => exact List.prefix_rfl

/-- The table after requests begins with the table before them. -/
theorem prefix_after (s : Session) (requests : List Request) :
    s.engine.languages <+: (s.after requests).engine.languages := by
  induction requests generalizing s with
  | nil => exact List.prefix_rfl
  | cons r rest ih => exact (s.prefix_request r).trans (ih _)

end Session
end DocHighlighter
