/-
# Scanning by the table of a grammar

The states on a run's stack are those of the spans that are open, the root below
them all (`Stacked`): names of the table, each longer than the one below it.  So
no state is on the stack twice, and the stack is no higher than the table.

A step then is one of three (`Grammar.StepOf`, `step_cases`): a token, a token
and a state above it, or the closing of a span, which makes a token only of a
match that is not empty.  The end of the text is the one place where there may be
no step.
-/

import DocHighlighter.Proofs.Grammar.Ready
import DocHighlighter.Proofs.Scanner.Steps
import Mathlib.Data.List.Perm.Subperm

namespace DocHighlighter
namespace Scanner

open Text (Cursor)

/-- A stack of states of a table: each name longer than the one below it, the root at the
bottom. -/
structure Stacked (t : ReadyTable) (stack : List String) : Prop where
  mem : ∀ s ∈ stack, s ∈ t.map Prod.fst
  longer : stack.Pairwise fun above below => below.length < above.length
  bottom : stack.getLast? = some rootState

namespace Stacked

variable {t : ReadyTable} {top : String} {stack rest : List String}

theorem root (h : rootState ∈ t.map Prod.fst) : Stacked t [rootState] :=
  ⟨by simpa using h, List.pairwise_singleton _ _, rfl⟩

theorem enter (h : Stacked t (top :: rest)) {inner : String} (hmem : inner ∈ t.map Prod.fst)
    (hlt : top.length < inner.length) : Stacked t (inner :: top :: rest) := by
  refine ⟨?_, List.pairwise_cons.2 ⟨?_, h.longer⟩, ?_⟩
  · intro s hs
    rcases List.mem_cons.1 hs with rfl | hs
    · exact hmem
    · exact h.mem s hs
  · intro s hs
    rcases List.mem_cons.1 hs with rfl | hs
    · exact hlt
    · exact Nat.lt_trans ((List.pairwise_cons.1 h.longer).1 s hs) hlt
  · rw [List.getLast?_cons_cons]
    exact h.bottom

theorem tail (h : Stacked t (top :: rest)) (hrest : rest ≠ []) : Stacked t rest := by
  refine ⟨fun s hs => h.mem s (List.mem_cons_of_mem _ hs), (List.pairwise_cons.1 h.longer).2, ?_⟩
  obtain ⟨below, rest, rfl⟩ := List.exists_cons_of_ne_nil hrest
  rw [← h.bottom, List.getLast?_cons_cons]

/-- Only the root has nothing below it. -/
theorem tail_ne_nil (h : Stacked t (top :: rest)) (htop : top ≠ rootState) : rest ≠ [] := by
  rintro rfl
  exact htop (Option.some.inj h.bottom)

theorem ne_nil (h : Stacked t stack) : stack ≠ [] := by
  rintro rfl
  exact absurd h.bottom (by simp)

/-- A stack is no higher than its table. -/
theorem length_le (h : Stacked t stack) : stack.length ≤ t.length := by
  have hnodup : stack.Nodup := by
    refine h.longer.imp fun hlt => ?_
    rintro rfl
    exact Nat.lt_irrefl _ hlt
  rw [← List.length_map (Prod.fst : String × List ReadyRule → String)]
  exact (List.subperm_of_subset hnodup h.mem).length_le

end Stacked

/-- What a step does by the table of a grammar. -/
inductive StepOf (t : ReadyTable) (g : Grammar) (k : Config) : List Token → Config → Prop
  /-- A token is made and the state is kept. -/
  | stays {p : Pattern} {kind : Kind} {m : Pattern.Match} (hp : g.MakesTokens p)
      (hkind : kind ≠ .error)
      (hm : firstMatch? (t.active k.stack) k.cursor = some (⟨p, .token kind, []⟩, m)) :
      StepOf t g k [.ofChars kind (k.cursor.upTo m.stop)] ⟨m.stop, k.stack⟩
  /-- A token is made and the state of a span is entered. -/
  | opens {p : Pattern} {kind : Kind} {m : Pattern.Match} {inner : String}
      (hp : g.MakesTokens p) (hkind : kind ≠ .error)
      (hm : firstMatch? (t.active k.stack) k.cursor = some (⟨p, .token kind, [.enter inner]⟩, m))
      (hinner : Stacked t (inner :: k.stack)) :
      StepOf t g k [.ofChars kind (k.cursor.upTo m.stop)] ⟨m.stop, inner :: k.stack⟩
  /-- A span is closed; a token is made if there is text for it. -/
  | closes {p : Pattern} {kind : Kind} {m : Pattern.Match} {top : String} {rest : List String}
      (hkind : kind ≠ .error)
      (hm : firstMatch? (t.active k.stack) k.cursor = some (⟨p, .nonempty kind, [.pop]⟩, m))
      (hstack : k.stack = top :: rest) (hrest : Stacked t rest) :
      StepOf t g k
        (if (k.cursor.upTo m.stop).isEmpty then [] else [.ofChars kind (k.cursor.upTo m.stop)])
        ⟨m.stop, rest⟩

section Steps

variable {t : ReadyTable} {g : Grammar} {nested : Nested} {k k' : Config} {tokens : List Token}

theorem StepOf.leadsTo (h : StepOf t g k tokens k') : k.cursor.LeadsTo k'.cursor := by
  cases h with
  | stays _ _ hm => exact Pattern.leadsTo_of_matchAt? (matchAt?_of_firstMatch? hm).2
  | opens _ _ hm _ => exact Pattern.leadsTo_of_matchAt? (matchAt?_of_firstMatch? hm).2
  | closes _ hm _ _ => exact Pattern.leadsTo_of_matchAt? (matchAt?_of_firstMatch? hm).2

theorem StepOf.stacked (h : StepOf t g k tokens k') (hk : Stacked t k.stack) :
    Stacked t k'.stack := by
  cases h with
  | stays => exact hk
  | opens _ _ _ hinner => exact hinner
  | closes _ _ _ hrest => exact hrest

theorem exists_mem_of_mem_names {state : String} (h : state ∈ t.map Prod.fst) :
    (state, t.rules state) ∈ t := by
  induction t with
  | nil => simp at h
  | cons s rest ih =>
    obtain ⟨name, rules⟩ := s
    unfold ReadyTable.rules
    rw [List.lookup_cons]
    by_cases hn : state = name
    · subst hn
      simp
    · rw [beq_eq_false_iff_ne.2 hn]
      refine List.mem_cons_of_mem _ (ih ?_)
      rcases List.mem_cons.1 h with he | h
      · exact absurd he hn
      · exact h

/-- What can happen at a place: there is a step, or the text is at its end and no rule matches. -/
theorem step_cases (ht : t.IsOf g) (hk : Stacked t k.stack) :
    (k.cursor.after = [] ∧ firstMatch? (t.active k.stack) k.cursor = none ∧
        step t nested k = .ok none) ∨
      ∃ tokens k', step t nested k = .ok (some (tokens, k')) ∧ StepOf t g k tokens k' := by
  obtain ⟨cursor, stack⟩ := k
  obtain ⟨top, rest, rfl⟩ := List.exists_cons_of_ne_nil hk.ne_nil
  have hmem := exists_mem_of_mem_names (hk.mem top List.mem_cons_self)
  cases hfirst : firstMatch? (t.rules top) cursor with
  | none =>
    left
    have hend : cursor.after = [] := by
      by_contra hafter
      obtain ⟨r, hr, hsome⟩ := ht.covers _ hmem cursor hafter
      have hnone := List.findSome?_eq_none_iff.1 hfirst r hr
      rw [Option.map_eq_none_iff.1 hnone] at hsome
      exact absurd hsome (by simp)
    have hnext : cursor.next? = none := by
      obtain ⟨before, after, pos, remaining, hp, hr⟩ := cursor
      obtain rfl : after = [] := hend
      rfl
    exact ⟨hend, hfirst, by simp [step, ReadyTable.active, hfirst, hnext]⟩
  | some found =>
    obtain ⟨r, m⟩ := found
    right
    have hstep : step t nested ⟨cursor, top :: rest⟩ =
        (r.action.tokens nested cursor m >>= fun tokens =>
          .ok (some (tokens, ⟨m.stop, r.moves.foldl (fun s m => m.apply s) (top :: rest)⟩))) := by
      simp [step, ReadyTable.active, hfirst, pure, Except.pure]
    rw [hstep]
    cases ht.roles _ hmem r (matchAt?_of_firstMatch? hfirst).1 with
    | leaf hp hkind => exact ⟨_, _, rfl, .stays hp hkind hfirst⟩
    | opening hp hkind hinner hlt =>
      exact ⟨_, _, rfl, .opens hp hkind hfirst (hk.enter hinner hlt)⟩
    | @closing p kind hkind hstate =>
      obtain ⟨below, rest, rfl⟩ := List.exists_cons_of_ne_nil (hk.tail_ne_nil hstate)
      refine ⟨_, ⟨m.stop, below :: rest⟩, ?_, .closes hkind hfirst rfl (hk.tail (by simp))⟩
      simp only [Action.tokens]
      split <;> rfl

/-- A step is one of the three, wherever a run stands. -/
theorem StepOf.of_step (ht : t.IsOf g) (hk : Stacked t k.stack)
    (h : step t nested k = .ok (some (tokens, k'))) : StepOf t g k tokens k' := by
  obtain ⟨-, -, hend⟩ | ⟨tokens', k'', hstep, hs⟩ := step_cases ht hk
  · rw [hend] at h
    simp at h
  · rw [hstep] at h
    obtain ⟨rfl, rfl⟩ := Prod.mk.inj (Option.some.inj (Except.ok.inj h))
    exact hs

/-- The step where some rule matches. -/
theorem exists_step_of_firstMatch? (nested : Nested) (ht : t.IsOf g) (hk : Stacked t k.stack)
    {r : ReadyRule}
    {m : Pattern.Match} (hfirst : firstMatch? (t.active k.stack) k.cursor = some (r, m)) :
    ∃ tokens k', step t nested k = .ok (some (tokens, k')) ∧ StepOf t g k tokens k' ∧
      k'.cursor = m.stop ∧ k'.stack = r.moves.foldl (fun s m => m.apply s) k.stack := by
  obtain ⟨-, hnone, -⟩ | ⟨tokens, k', hstep, hof⟩ := step_cases ht hk
  · rw [hnone] at hfirst
    simp at hfirst
  · refine ⟨tokens, k', hstep, hof, ?_⟩
    cases hof with
    | stays _ _ hm =>
      obtain ⟨rfl, rfl⟩ := Prod.mk.inj (Option.some.inj (hm.symm.trans hfirst))
      exact ⟨rfl, rfl⟩
    | opens _ _ hm _ =>
      obtain ⟨rfl, rfl⟩ := Prod.mk.inj (Option.some.inj (hm.symm.trans hfirst))
      exact ⟨rfl, rfl⟩
    | closes _ hm hstack hrest =>
      obtain ⟨rfl, rfl⟩ := Prod.mk.inj (Option.some.inj (hm.symm.trans hfirst))
      refine ⟨rfl, ?_⟩
      obtain ⟨below, rest, rfl⟩ := List.exists_cons_of_ne_nil hrest.ne_nil
      rw [hstack]
      rfl

/-- Wherever a run comes to stand, its stack is one. -/
theorem Steps.stacked {n : Nat} (ht : t.IsOf g) (h : Steps t nested n k tokens k')
    (hk : Stacked t k.stack) : Stacked t k'.stack := by
  induction h with
  | refl => exact hk
  | head hstep _ ih => exact ih ((StepOf.of_step ht hk hstep).stacked hk)

end Steps

end Scanner
end DocHighlighter
