/-
# Runs of a scanner, step by step

`Steps t nested n k tokens k'` says that `n` steps lead from `k` to `k'` and give
the tokens.  A step is a function of where the run stands, so the steps from a
place are determined (`Steps.unique`), and the fuelled `run` is them: it gives
their tokens if they come to an end in time (`run_eq_ok`), and is endless if
there are as many steps as it has fuel (`run_eq_endless`).

What a step can do is said once (`made_of_step`), and a run ends only where the
text does (`next?_eq_none_of_step`).  No step goes back in the text
(`leadsTo_of_step`).  A run that stands a second time at one position with one
stack of states (`Repeats`) therefore stands where it stood, and goes on for ever
(`run_eq_endless_of_repeats`).
-/

import DocHighlighter.Proofs.Pattern.Advance
import DocHighlighter.Proofs.Scanner.Ready

namespace DocHighlighter
namespace Scanner

open Text (Cursor)

/-- `n` steps lead from one standing of a run to another and give some tokens. -/
inductive Steps (t : ReadyTable) (nested : Nested) : Nat → Config → List Token → Config → Prop
  | refl (k : Config) : Steps t nested 0 k [] k
  | head {n : Nat} {k k₁ k' : Config} {first rest : List Token}
      (h : step t nested k = .ok (some (first, k₁))) (hs : Steps t nested n k₁ rest k') :
      Steps t nested (n + 1) k (first ++ rest) k'

/-- A run that comes to stand twice at one position with one stack of states. -/
def Repeats (t : ReadyTable) (nested : Nested) (start : Config) : Prop :=
  ∃ n m k k' before between, Steps t nested n start before k ∧
    Steps t nested (m + 1) k between k' ∧ k'.cursor.pos = k.cursor.pos ∧ k'.stack = k.stack

variable {t : ReadyTable} {nested : Nested}

namespace Steps

theorem one {k k' : Config} {tokens : List Token}
    (h : step t nested k = .ok (some (tokens, k'))) : Steps t nested 1 k tokens k' := by
  have hs := Steps.head h (.refl k')
  rwa [List.append_nil] at hs

theorem trans {n m : Nat} {k k₁ k' : Config} {ts us : List Token} (h : Steps t nested n k ts k₁)
    (h' : Steps t nested m k₁ us k') : Steps t nested (n + m) k (ts ++ us) k' := by
  induction h with
  | refl => rwa [Nat.zero_add, List.nil_append]
  | head hstep _ ih =>
    rw [List.append_assoc, Nat.add_right_comm]
    exact .head hstep (ih h')

/-- The steps from a place are determined. -/
theorem unique {n : Nat} {k k₁ k₂ : Config} {ts us : List Token} (h : Steps t nested n k ts k₁)
    (h' : Steps t nested n k us k₂) : ts = us ∧ k₁ = k₂ := by
  induction h generalizing us k₂ with
  | refl =>
    cases h'
    exact ⟨rfl, rfl⟩
  | head hstep _ ih =>
    cases h' with
    | head hstep' hs' =>
      rw [hstep] at hstep'
      obtain ⟨rfl, rfl⟩ := Prod.mk.inj (Option.some.inj (Except.ok.inj hstep'))
      obtain ⟨rfl, rfl⟩ := ih hs'
      exact ⟨rfl, rfl⟩

/-- Of some steps the first ones. -/
theorem take {n : Nat} {k k' : Config} {ts : List Token} (h : Steps t nested n k ts k')
    {i : Nat} (hi : i ≤ n) : ∃ us k₁, Steps t nested i k us k₁ := by
  induction h generalizing i with
  | refl k =>
    obtain rfl : i = 0 := by omega
    exact ⟨[], k, .refl k⟩
  | @head _ k _ _ _ _ hstep _ ih =>
    cases i with
    | zero => exact ⟨[], k, .refl k⟩
    | succ i =>
      obtain ⟨us, k₁, hs⟩ := ih (Nat.le_of_succ_le_succ hi)
      exact ⟨_, k₁, .head hstep hs⟩

/-- Steps that lead back to where they began can be made again and again. -/
theorem many {m : Nat} {k : Config} {ts : List Token} (h : Steps t nested m k ts k) (n : Nat) :
    ∃ us, Steps t nested (n * m) k us k := by
  induction n with
  | zero => exact ⟨[], by rw [Nat.zero_mul]; exact .refl k⟩
  | succ n ih =>
    obtain ⟨us, hs⟩ := ih
    exact ⟨us ++ ts, by rw [Nat.succ_mul]; exact hs.trans h⟩

end Steps

theorem matchAt?_of_firstMatch? {rules : List ReadyRule} {c : Cursor} {r : ReadyRule}
    {m : Pattern.Match} (h : firstMatch? rules c = some (r, m)) :
    r ∈ rules ∧ r.pattern.matchAt? c = some m := by
  obtain ⟨r', hr', hsome⟩ := List.exists_of_findSome?_eq_some h
  obtain ⟨m', hm, he⟩ := Option.map_eq_some_iff.1 hsome
  obtain ⟨rfl, rfl⟩ := Prod.mk.inj he
  exact ⟨hr', hm⟩

/-- What a step can do: it makes the first match, or where nothing matches it takes one character,
a newline back to the root, or any other as an error. -/
inductive StepMade (t : ReadyTable) (nested : Nested) (k : Config) : List Token → Config → Prop
  | matched {r : ReadyRule} {m : Pattern.Match} {tokens : List Token}
      (hfirst : firstMatch? (t.active k.stack) k.cursor = some (r, m))
      (htokens : r.action.tokens nested k.cursor m = .ok tokens) :
      StepMade t nested k tokens ⟨m.stop, r.moves.foldl (fun s m => m.apply s) k.stack⟩
  | newline {d : Cursor} (hnone : firstMatch? (t.active k.stack) k.cursor = none)
      (hnext : k.cursor.next? = some ('\n', d)) :
      StepMade t nested k [⟨.whitespace, "\n"⟩] ⟨d, [rootState]⟩
  | other {c : Char} {d : Cursor} (hnone : firstMatch? (t.active k.stack) k.cursor = none)
      (hnext : k.cursor.next? = some (c, d)) (hc : c ≠ '\n') :
      StepMade t nested k [⟨.error, c.toString⟩] ⟨d, k.stack⟩

theorem made_of_step {k k' : Config} {tokens : List Token}
    (h : step t nested k = .ok (some (tokens, k'))) : StepMade t nested k tokens k' := by
  unfold step at h
  split at h
  · next r m hfirst =>
    obtain ⟨ts, htokens, h⟩ := exists_ok_of_bind h
    obtain ⟨rfl, rfl⟩ := Prod.mk.inj (Option.some.inj (Except.ok.inj h))
    exact .matched hfirst htokens
  · next hnone =>
    split at h
    · cases h
    · next c d hnext =>
      split at h
      · next hc =>
        obtain rfl := beq_iff_eq.1 hc
        obtain ⟨rfl, rfl⟩ := Prod.mk.inj (Option.some.inj (Except.ok.inj h))
        exact .newline hnone hnext
      · next hc =>
        obtain ⟨rfl, rfl⟩ := Prod.mk.inj (Option.some.inj (Except.ok.inj h))
        exact .other hnone hnext fun heq => hc (beq_iff_eq.2 heq)

/-- A run ends where the text is over, and no rule matches there. -/
theorem next?_eq_none_of_step {k : Config} (h : step t nested k = .ok none) :
    firstMatch? (t.active k.stack) k.cursor = none ∧ k.cursor.next? = none := by
  unfold step at h
  split at h
  · obtain ⟨ts, -, h⟩ := exists_ok_of_bind h
    cases h
  · next hnone =>
    split at h
    · next hnext => exact ⟨hnone, hnext⟩
    · split at h <;> cases h

/-- No step goes back in the text. -/
theorem leadsTo_of_step {k k' : Config} {tokens : List Token}
    (h : step t nested k = .ok (some (tokens, k'))) : k.cursor.LeadsTo k'.cursor := by
  cases made_of_step h with
  | matched hfirst => exact Pattern.leadsTo_of_matchAt? (matchAt?_of_firstMatch? hfirst).2
  | newline _ hnext => exact .of_next? hnext
  | other _ hnext => exact .of_next? hnext

theorem Steps.leadsTo {n : Nat} {k k' : Config} {ts : List Token} (h : Steps t nested n k ts k') :
    k.cursor.LeadsTo k'.cursor := by
  induction h with
  | refl k => exact .refl k.cursor
  | head hstep _ ih => exact (leadsTo_of_step hstep).trans ih

/-- A run that gives tokens is over, or goes on with the run from the next place. -/
theorem run_eq_ok_cases {fuel : Nat} {k : Config} {acc tokens : List Token}
    (h : run t nested (fuel + 1) k acc = .ok tokens) :
    (step t nested k = .ok none ∧ tokens = acc.reverse) ∨
      ∃ more k', step t nested k = .ok (some (more, k')) ∧
        run t nested fuel k' (more.reverse ++ acc) = .ok tokens := by
  rw [run] at h
  obtain ⟨next, hstep, h⟩ := exists_ok_of_bind h
  cases next with
  | none => exact .inl ⟨hstep, (Except.ok.inj h).symm⟩
  | some answer => exact .inr ⟨answer.1, answer.2, hstep, h⟩

/-- A run gives the tokens of its steps, if they come to an end before the fuel does. -/
theorem run_eq_ok {n : Nat} {k k' : Config} {ts : List Token} (h : Steps t nested n k ts k')
    (hend : step t nested k' = .ok none) {fuel : Nat} (hn : n < fuel) (acc : List Token) :
    run t nested fuel k acc = .ok (acc.reverse ++ ts) := by
  induction h generalizing fuel acc with
  | refl k =>
    obtain ⟨fuel, rfl⟩ := Nat.exists_eq_add_of_lt hn
    simp [run, hend, bind, Except.bind, pure, Except.pure]
  | head hstep _ ih =>
    cases fuel with
    | zero => omega
    | succ fuel =>
      simp only [run, hstep, bind, Except.bind]
      rw [ih hend (Nat.lt_of_succ_lt_succ hn)]
      simp

/-- A run is endless if there are as many steps as it has fuel. -/
theorem run_eq_endless {n : Nat} {k k' : Config} {ts : List Token} (h : Steps t nested n k ts k')
    (acc : List Token) : run t nested n k acc = .error .endless := by
  induction h generalizing acc with
  | refl k => rfl
  | head hstep _ ih =>
    simp only [run, hstep, bind, Except.bind]
    exact ih _

/-- **A run that repeats itself is endless,** whatever its fuel. -/
theorem run_eq_endless_of_repeats {start : Config} (h : Repeats t nested start) (fuel : Nat)
    (acc : List Token) : run t nested fuel start acc = .error .endless := by
  obtain ⟨n, m, k, k', before, between, hs, hloop, hpos, hstack⟩ := h
  obtain rfl : k' = k := by
    obtain ⟨cursor, stack⟩ := k
    obtain ⟨cursor', stack'⟩ := k'
    obtain rfl : stack' = stack := hstack
    obtain rfl : cursor' = cursor := hloop.leadsTo.eq_of_pos_eq hpos
    rfl
  obtain ⟨us, hmany⟩ := hloop.many fuel
  have hle : fuel ≤ n + fuel * (m + 1) :=
    Nat.le_trans (Nat.le_mul_of_pos_right fuel (Nat.succ_pos m)) (Nat.le_add_left _ n)
  obtain ⟨ws, k₁, hfuel⟩ := (hs.trans hmany).take hle
  exact run_eq_endless hfuel acc

/-- A run that comes to an end does not repeat itself. -/
theorem not_repeats_of_ends {n : Nat} {k k' : Config} {ts : List Token}
    (h : Steps t nested n k ts k') (hend : step t nested k' = .ok none) :
    ¬ Repeats t nested k := by
  intro hr
  have hok := run_eq_ok h hend (Nat.lt_succ_self n) []
  rw [run_eq_endless_of_repeats hr] at hok
  simp at hok

end Scanner
end DocHighlighter
