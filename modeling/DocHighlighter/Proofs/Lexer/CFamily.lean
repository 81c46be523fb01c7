/-
# Every text of the C family can be scanned

Nearly all rules of the shared states take a character wherever they match.  Those that may
take none leave the state of a name (`className`), or begin a statement where nothing else
begins (`root`); both lower the weight of the stack.

What the written patterns take is not looked at here: a table settles if they pass
(`Table.settles_of_passes`).

Where a program of C declares a function, the blanks between the parts of the declaration are
scanned on their own, from the state for blanks (`nests_declaration`): at the beginning of the
declaration no rule before the one for declarations matches, and that one does.
-/

import DocHighlighter.Lexer.Cpp
import DocHighlighter.Proofs.Scanner.Misses

namespace DocHighlighter
namespace Lexer

open Scanner

namespace CFamily

/-- The flags of all languages of the family. -/
abbrev flags : Pattern.Flags := { multiLine := true }

/-- The states of names must be left, and the root, or the body of a namespace, for a statement. -/
def weights : Weights where
  weight state := if state = "classname" ∨ state = "enumname" then 2 else 0
  bonus _ state := if state = rootState ∨ state = "namespace-body" then 1 else 0
  weight_le state := by split <;> decide
  bonus_le _ state := by split <;> decide
  weight_root := by decide

/-- All rules of a list settle in a state of the family. -/
abbrev Settle (state : String) (rules : List Rule) : Prop :=
  AllSettle weights flags state rules

/-- The rules that a language puts before the shared ones settle, wherever they stand. -/
structure Additions.Settle (x : Additions) : Prop where
  statements : ∀ state, CFamily.Settle state x.statements
  keywords : ∀ state, CFamily.Settle state x.keywords
  types : ∀ state, CFamily.Settle state x.types
  attributes : ∀ state, CFamily.Settle state x.attributes

section Shared

variable {x : Additions} {state : String}

theorem whitespace_settle : Settle state whitespace :=
  .of_plain rfl

theorem keywords_settle (hx : x.Settle) : Settle state (keywords x) :=
  (hx.keywords state).append <| .cons (.plain rfl) <|
    .cons (.plain rfl) <| .cons (.takes (takes_onWords (by simp))) <|
    .cons (.takes (takes_onWords (by simp))) <| .cons (.plain rfl) <|
    .one (.takes (takes_onWords (by simp)))

theorem types_settle (hx : x.Settle) : Settle state (types x) :=
  (hx.types state).append <| .cons (.takes (takes_onWords (by simp))) <|
    .one (.takes (takes_onWords (by simp)))

theorem statements_settle (hx : x.Settle) : Settle state (statements x) :=
  (((((hx.statements state).append (keywords_settle hx)).append (types_settle hx)).append
    (.of_plain rfl)).append (.of_plain rfl)).append
    (.of_plain rfl)

theorem statement_settle (hx : x.Settle) : Settle state (statement x) :=
  (whitespace_settle.append (statements_settle hx)).append (.of_plain rfl)

theorem function_settle (hx : x.Settle) : Settle state (function x) :=
  (whitespace_settle.append (statements_settle hx)).append (.of_plain rfl)

theorem caseValue_settle (hx : x.Settle) : Settle state (caseValue x) :=
  (AllSettle.append (.of_plain rfl) whitespace_settle).append
    (statements_settle hx)

theorem attributes_settle (hx : x.Settle) : Settle state (attributes x) :=
  ((hx.attributes state).append (.of_plain rfl)).append whitespace_settle

theorem arguments_settle (hx : x.Settle) : Settle state (arguments x) :=
  AllSettle.append (.of_plain rfl) (statements_settle hx)

/-- Where nothing else begins at the root a statement does, and its state has no bonus. -/
theorem root_settle (hx : x.Settle) (hstate : state = rootState ∨ state = "namespace-body") :
    Settle state (root x) := by
  have hstatement : ∀ before,
      (otherwise [.enter "statement"]).Lowers weights flags state before := by
    refine fun before => ⟨_, isSound_otherwise (by decide), fun c rest _ _ _ => ?_⟩
    have hbonus : weights.bonus c state = 1 := if_pos hstate
    change weights.loadAt c ("statement" :: state :: rest) < _
    rw [weights.loadAt_cons, weights.loadAt_cons, weights.load_cons, hbonus]
    change 0 + _ + 0 < _
    omega
  exact (((whitespace_settle.append (keywords_settle hx)).append
    (.of_plain rfl)).append (types_settle hx)).append (.one (.lowers hstatement))

/-- A state of a name weighs more than what any state below it gains. -/
theorem lowers_of_pop (hstate : state = "classname" ∨ state = "enumname") {r : Rule} {p : Pattern}
    (hp : r.IsSound flags p) (hmoves : r.moves = [.pop]) (before : List Rule) :
    r.Lowers weights flags state before := by
  refine ⟨p, hp, fun c rest _ _ hroot => ?_⟩
  have hweight : weights.weight state = 2 := if_pos hstate
  rw [hmoves]
  refine loadAt_pop_lt ?_ hroot fun below => ?_
  · obtain rfl | rfl := hstate <;> decide
  · have hbelow : weights.bonus c below ≤ 1 := by
      change (if _ then _ else _) ≤ _
      split <;> decide
    omega

theorem className_settle (hstate : state = "classname" ∨ state = "enumname") :
    Settle state className := by
  have hlook : (on r"\s*(?=>)" .text [.pop]).passes flags = true := by decide +kernel
  obtain ⟨p, hp, -⟩ := Rule.exists_isSound_of_passes hlook rfl
  exact .cons (.plain rfl) <| .cons (.lowers (lowers_of_pop hstate hp rfl)) <|
    .one (.lowers (lowers_of_pop hstate (isSound_otherwise (by decide)) rfl))

end Shared

/-- **The table of a language of the family settles,** if the states of its own do. -/
theorem table_settles {x : Additions} {own : Table} (hx : x.Settle)
    (hown : ∀ s ∈ own, Settle s.1 s.2) (hpass : (table x own).passes flags = true) :
    (table x own).Settles weights flags := by
  refine Table.settles_of_passes hpass fun s hs => AllSettle.stateSettles ?_
  rcases List.mem_append.1 hs with hs | hs
  · exact hown s hs
  have hshared := (List.mem_filter.1 hs).1
  simp only [List.mem_cons, List.not_mem_nil, or_false] at hshared
  rcases hshared with rfl | rfl | rfl | rfl | rfl | rfl | rfl | rfl | rfl | rfl | rfl | rfl |
    rfl | rfl
  · exact whitespace_settle
  · exact statements_settle hx
  · exact types_settle hx
  · exact keywords_settle hx
  · exact root_settle hx (.inl rfl)
  · exact statement_settle hx
  · exact function_settle hx
  · exact .of_plain rfl
  · exact .of_plain rfl
  · exact .of_plain rfl
  · exact (whitespace_settle.append (.of_plain rfl)).append
      (className_settle (.inl rfl))
  · exact caseValue_settle hx
  · exact attributes_settle hx
  · exact arguments_settle hx

end CFamily

/-! ## C and C++ -/

theorem cAdditions_settle : cAdditions.Settle where
  statements _ := .of_plain rfl
  keywords _ := .one (.takes (takes_onWords (by simp)))
  types _ := .one (.takes (takes_onWords (by simp)))
  attributes _ := .of_plain rfl

theorem c_settles (hpass : (CFamily.table cAdditions []).passes CFamily.flags = true) :
    (CFamily.table cAdditions []).Settles CFamily.weights CFamily.flags :=
  CFamily.table_settles cAdditions_settle (by simp) hpass

namespace Cpp

theorem additions_settle : additions.Settle where
  statements _ := .of_plain rfl
  keywords _ := .cons (.plain rfl) <|
    .cons (.takes (takes_onWords (by simp))) (.of_plain rfl)
  types _ := .of_plain rfl
  attributes _ := .of_plain rfl

theorem root_settle {state : String} (hstate : state = rootState ∨ state = "namespace-body") :
    CFamily.Settle state root :=
  (CFamily.root_settle additions_settle hstate).append <|
    .cons (.takes (takes_onWords (by simp))) (.of_plain rfl)

theorem className_settle : CFamily.Settle "classname" className :=
  (CFamily.whitespace_settle.append (.of_plain rfl)).append
    (CFamily.className_settle (.inl rfl))

theorem enumName_settle : CFamily.Settle "enumname" enumName :=
  (CFamily.whitespace_settle.append <| .cons (.takes (takes_onWords (by simp)))
    (.of_plain rfl)).append (CFamily.className_settle (.inr rfl))

theorem table_settles (hpass : table.passes CFamily.flags = true) :
    table.Settles CFamily.weights CFamily.flags := by
  refine CFamily.table_settles additions_settle (fun s hs => ?_) hpass
  simp only [List.mem_cons, List.not_mem_nil, or_false] at hs
  rcases hs with rfl | rfl | rfl | rfl | rfl | rfl | rfl
  · exact root_settle (.inl rfl)
  · exact className_settle
  · exact enumName_settle
  · exact AllSettle.append (.of_plain rfl)
      (CFamily.statement_settle additions_settle)
  · exact .cons (.plain rfl) (root_settle (.inr rfl))
  · exact AllSettle.append (.of_plain rfl) CFamily.whitespace_settle
  · exact CFamily.arguments_settle additions_settle

end Cpp

/-! ## A declaration of C -/

/-- The text of a declaration. -/
def declaration : List Char :=
  ['a', ' ', 'f', '(', ')', ';', '\n']

/-- The rules of the root that are tried before the one for declarations. -/
def beforeDeclaration : List Rule :=
  CFamily.whitespace ++ CFamily.keywords cAdditions ++
    [onGroups (CFamily.signature ++ r#"([^;{/"\']*)(\{)"#) CFamily.signatureParts
      [.enter "function"]]

theorem misses_beforeDeclaration :
    ∀ r ∈ beforeDeclaration, r.Misses CFamily.flags (.start declaration) := by
  have hwritten : ∀ {rules : List Rule},
      rules.all (Rule.missesAt CFamily.flags (.start declaration)) = true →
      ∀ r ∈ rules, r.Misses CFamily.flags (.start declaration) :=
    fun h r hr => Rule.misses_of_missesAt (List.all_eq_true.1 h r hr)
  have hkeywords : ∀ r ∈ CFamily.keywords cAdditions,
      r.Misses CFamily.flags (.start declaration) := by
    simp only [CFamily.keywords, cAdditions, List.forall_mem_append, List.forall_mem_cons,
      List.not_mem_nil, false_imp_iff, implies_true, and_true]
    refine ⟨misses_onWords ?_, Rule.misses_of_missesAt ?_, Rule.misses_of_missesAt ?_,
      misses_onWords ?_, misses_onWords ?_, Rule.misses_of_missesAt ?_, misses_onWords ?_⟩
    all_goals decide +kernel
  refine List.forall_mem_append.2 ⟨List.forall_mem_append.2 ⟨?_, hkeywords⟩, ?_⟩
  · exact hwritten (by decide +kernel)
  · exact hwritten (by decide +kernel)

/-- The rule for declarations. -/
def declarationRule : Rule :=
  onGroups (CFamily.signature ++ r#"([^;/"\']*)(;)"#) CFamily.signatureParts

/-- At a declaration of C the second group of a match is scanned from the state for blanks. -/
theorem nests_declaration {ready : ReadyTable}
    (h : (CFamily.table cAdditions []).ready CFamily.flags = .ok ready) :
    ∃ s, ready.Nests declaration (some "whitespace") s := by
  have hcaptures : declarationRule.capturesAt CFamily.flags (.start declaration) 2 = true := by
    decide +kernel
  obtain ⟨p, m, s, hp, hm, hs⟩ := Rule.exists_match_of_capturesAt hcaptures
  have hroot : (CFamily.table cAdditions []).lookup rootState =
      some (beforeDeclaration ++ declarationRule ::
        (CFamily.types cAdditions ++ [otherwise [.enter "statement"]])) := by
    rfl
  have hfirst := firstMatch?_of_split (Table.ready_rules h hroot) misses_beforeDeclaration hp hm
  exact ⟨s, .intro .refl hfirst rfl (by decide) hs⟩

end Lexer
end DocHighlighter
