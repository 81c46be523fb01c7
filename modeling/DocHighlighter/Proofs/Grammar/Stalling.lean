/-
# Where the scan of a grammar does not end

A run is stuck where the first rule that matches takes no text and leads back, at
once or through the closing of the span that it opens (`StallsAt`).  Being stuck
is the only way not to come to an end (`repeats_iff_stalls`): at one place of the
text any other run closes some spans, then opens some, then takes a character.
The measure is the text that is left, by twice the height of the table, and the
steps that are left at the place (`stepsLeft`, `opensLeft`).

| statement | says |
|---|---|
| `end_or_next` | a run that is never stuck is at the end or has fewer steps to come |
| `exists_end` | so it comes to the end of the text |
| `repeats_of_stalls` | a run that is stuck repeats itself |
| `scan_cases` | the scan of a text gives the tokens of a run to the end, or is endless |
-/

import DocHighlighter.Proofs.Grammar.Scan

namespace DocHighlighter
namespace Scanner

open Text (Cursor)

/-- A run that stands here takes no text and comes back here: the first rule that matches takes no
text and stays, or it opens a span that is closed at once. -/
inductive StallsAt (t : ReadyTable) (k : Config) : Prop
  | stays {r : ReadyRule} {m : Pattern.Match}
      (hfirst : firstMatch? (t.active k.stack) k.cursor = some (r, m)) (hm : m.stop = k.cursor)
      (hmoves : r.moves = [])
  | opens {r r' : ReadyRule} {m m' : Pattern.Match} {inner : String}
      (hfirst : firstMatch? (t.active k.stack) k.cursor = some (r, m)) (hm : m.stop = k.cursor)
      (hmoves : r.moves = [.enter inner])
      (hnext : firstMatch? (t.rules inner) k.cursor = some (r', m')) (hm' : m'.stop = k.cursor)
      (hmoves' : r'.moves = [.pop])

/-- A run comes to stand where it is stuck. -/
def Stalls (t : ReadyTable) (nested : Nested) (start : Config) : Prop :=
  ∃ n tokens k, Steps t nested n start tokens k ∧ StallsAt t k

section Ends

variable {t : ReadyTable} {g : Grammar} {nested : Nested} {k : Config}

theorem not_stalls_of_steps {n : Nat} {tokens : List Token} {k' : Config}
    (hno : ¬ Stalls t nested k) (hs : Steps t nested n k tokens k') : ¬ Stalls t nested k' := by
  rintro ⟨m, tokens', k'', hs', hat⟩
  exact hno ⟨_, _, k'', hs.trans hs', hat⟩

/-- The next step opens a span, unless it takes text. -/
def OnlyOpens (t : ReadyTable) (nested : Nested) (k : Config) : Prop :=
  ∀ tokens k', step t nested k = .ok (some (tokens, k')) → k'.cursor = k.cursor →
    k.stack.length < k'.stack.length

/-- A bound for the steps to come, where spans may be closed before text is taken. -/
def stepsLeft (t : ReadyTable) (k : Config) : Nat :=
  k.cursor.remaining * (2 * t.length + 2) + (t.length + 1 + k.stack.length)

/-- A bound for the steps to come, where spans are only opened before text is taken. -/
def opensLeft (t : ReadyTable) (k : Config) : Nat :=
  k.cursor.remaining * (2 * t.length + 2) + (t.length - k.stack.length)

theorem opensLeft_le_stepsLeft (t : ReadyTable) (k : Config) : opensLeft t k ≤ stepsLeft t k := by
  unfold opensLeft stepsLeft
  omega

/-- A step that takes text leaves fewer steps to come than there were at best. -/
theorem stepsLeft_lt_of_takes {k' : Config} (hlead : k.cursor.LeadsTo k'.cursor)
    (hne : k'.cursor ≠ k.cursor) (hk' : Stacked t k'.stack) : stepsLeft t k' < opensLeft t k := by
  have hpos := hlead.pos_lt hne
  have hrem := hlead.remaining_eq
  have hheight := hk'.length_le
  have hmul : (k'.cursor.remaining + 1) * (2 * t.length + 2) ≤
      k.cursor.remaining * (2 * t.length + 2) := Nat.mul_le_mul_right _ (by omega)
  rw [Nat.succ_mul] at hmul
  unfold stepsLeft opensLeft
  omega

/-- A run that is not stuck where it opens a span without taking text only opens spans then. -/
theorem onlyOpens_of_opens (ht : t.IsOf g) {inner : String} {r : ReadyRule} {m : Pattern.Match}
    (hfirst : firstMatch? (t.active k.stack) k.cursor = some (r, m)) (hm : m.stop = k.cursor)
    (hmoves : r.moves = [.enter inner]) (hinner : Stacked t (inner :: k.stack))
    (hat : ¬ StallsAt t k) (hat' : ¬ StallsAt t ⟨k.cursor, inner :: k.stack⟩) :
    OnlyOpens t nested ⟨k.cursor, inner :: k.stack⟩ := by
  intro tokens k' hstep hk'
  cases StepOf.of_step ht hinner hstep with
  | stays _ _ hm' => exact absurd (.stays hm' hk' rfl) hat'
  | opens => exact Nat.lt_succ_self _
  | closes _ hm' => exact absurd (.opens hfirst hm hmoves hm' hk' rfl) hat

/-- **Progress:** a run that is never stuck is at the end, or goes on with fewer steps to come. -/
theorem end_or_next (ht : t.IsOf g) (hk : Stacked t k.stack) (hno : ¬ Stalls t nested k) :
    (k.cursor.after = [] ∧ step t nested k = .ok none) ∨
      ∃ tokens k', step t nested k = .ok (some (tokens, k')) ∧ StepOf t g k tokens k' ∧
        (stepsLeft t k' < opensLeft t k ∨
          (OnlyOpens t nested k' ∧ opensLeft t k' < opensLeft t k) ∨
          (¬ OnlyOpens t nested k ∧ stepsLeft t k' < stepsLeft t k)) := by
  obtain ⟨hend, -, hnone⟩ | ⟨tokens, k', hstep, hof⟩ := step_cases ht hk
  · exact .inl ⟨hend, hnone⟩
  refine .inr ⟨tokens, k', hstep, hof, ?_⟩
  have hat : ¬ StallsAt t k := fun hat => hno ⟨0, [], k, .refl k, hat⟩
  have hat' : ¬ StallsAt t k' := fun hat => hno ⟨1, tokens, k', .one hstep, hat⟩
  by_cases hsame : k'.cursor = k.cursor
  · right
    cases hof with
    | stays _ _ hm => exact absurd (.stays hm hsame rfl) hat
    | @opens p kind m inner _ _ hm hinner =>
      left
      have hcursor : m.stop = k.cursor := hsame
      rw [hcursor] at hat' ⊢
      refine ⟨onlyOpens_of_opens ht hm hcursor rfl hinner hat hat', ?_⟩
      have hheight := hinner.length_le
      rw [List.length_cons] at hheight
      unfold opensLeft
      rw [List.length_cons]
      dsimp only
      omega
    | @closes p kind m top rest _ hm hstack hrest =>
      right
      have hcursor : m.stop = k.cursor := hsame
      refine ⟨fun hopens => ?_, ?_⟩
      · have hlt := hopens _ _ hstep hsame
        rw [hstack, List.length_cons] at hlt
        dsimp only at hlt
        omega
      · unfold stepsLeft
        rw [hstack, List.length_cons, hcursor]
        dsimp only
        omega
  · exact .inl (stepsLeft_lt_of_takes hof.leadsTo hsame (hof.stacked hk))

/-- A run that is never stuck comes to the end of the text in as many steps as are left. -/
theorem exists_end (ht : t.IsOf g) {N : Nat} (hk : Stacked t k.stack) (hno : ¬ Stalls t nested k)
    (hN : stepsLeft t k ≤ N ∨ OnlyOpens t nested k ∧ opensLeft t k ≤ N) :
    ∃ n ≤ N, ∃ tokens k', Steps t nested n k tokens k' ∧ k'.cursor.after = [] ∧
      step t nested k' = .ok none := by
  induction N using Nat.strongRecOn generalizing k with
  | ind N ih =>
    obtain hend | ⟨tokens, k', hstep, hof, hless⟩ := end_or_next ht hk hno
    · exact ⟨0, Nat.zero_le N, [], k, .refl k, hend⟩
    · have hN' : ∃ N' < N, stepsLeft t k' ≤ N' ∨ OnlyOpens t nested k' ∧ opensLeft t k' ≤ N' := by
        have hle := opensLeft_le_stepsLeft t k
        rcases hless with hless | ⟨hopens, hless⟩ | ⟨hcloses, hless⟩
        · exact ⟨stepsLeft t k', by omega, .inl le_rfl⟩
        · exact ⟨opensLeft t k', by omega, .inr ⟨hopens, le_rfl⟩⟩
        · rcases hN with hN | ⟨hopens, -⟩
          · exact ⟨stepsLeft t k', by omega, .inl le_rfl⟩
          · exact absurd hopens hcloses
      obtain ⟨N', hlt, hleft⟩ := hN'
      obtain ⟨n, hn, us, k'', hs, hend⟩ :=
        ih N' hlt (hof.stacked hk) (not_stalls_of_steps hno (.one hstep)) hleft
      exact ⟨n + 1, by omega, tokens ++ us, k'', .head hstep hs, hend⟩

/-- A run that is stuck repeats itself. -/
theorem repeats_of_stalls (ht : t.IsOf g) (hk : Stacked t k.stack) (h : Stalls t nested k) :
    Repeats t nested k := by
  obtain ⟨n, tokens, k', hs, hat⟩ := h
  have hk' := hs.stacked ht hk
  cases hat with
  | stays hfirst hm hmoves =>
    obtain ⟨us, k₁, hstep, -, hcursor, hstack⟩ :=
      exists_step_of_firstMatch? nested ht hk' hfirst
    rw [hmoves] at hstack
    exact ⟨n, 0, k', k₁, tokens, us, hs, .one hstep, by rw [hcursor, hm], hstack⟩
  | @opens r r' m m' inner hfirst hm hmoves hnext hm' hmoves' =>
    obtain ⟨us, k₁, hstep, hof, hcursor, hstack⟩ :=
      exists_step_of_firstMatch? nested ht hk' hfirst
    rw [hmoves] at hstack
    rw [hm] at hcursor
    have hnext₁ : firstMatch? (t.active k₁.stack) k₁.cursor = some (r', m') := by
      rw [hstack, hcursor]
      exact hnext
    obtain ⟨vs, k₂, hstep₂, -, hcursor₂, hstack₂⟩ :=
      exists_step_of_firstMatch? nested ht (hof.stacked hk') hnext₁
    obtain ⟨top, rest, hk₀⟩ := List.exists_cons_of_ne_nil hk'.ne_nil
    refine ⟨n, 1, k', k₂, tokens, _, hs, .head hstep (.one hstep₂), by rw [hcursor₂, hm'], ?_⟩
    rw [hstack₂, hmoves', hstack, hk₀]
    rfl

/-- **A run does not come to an end exactly if it gets stuck.** -/
theorem repeats_iff_stalls (ht : t.IsOf g) (hk : Stacked t k.stack) :
    Repeats t nested k ↔ Stalls t nested k := by
  refine ⟨fun hr => ?_, repeats_of_stalls ht hk⟩
  by_contra hno
  obtain ⟨n, -, tokens, k', hs, -, hend⟩ := exists_end ht hk hno (.inl le_rfl)
  exact not_repeats_of_ends hs hend hr

end Ends

/-- Where the scan of a text begins. -/
def startOf (text : List Char) : Config :=
  ⟨Cursor.start text, [rootState]⟩

/-- The way to scan parts that the scan of a text has. -/
def nestedOf (t : ReadyTable) (text : List Char) : Nested :=
  scanFrom t (text.length + 1)

theorem stepsLeft_startOf_lt (t : ReadyTable) (text : List Char) :
    stepsLeft t (startOf text) < t.fuelFor text.length := by
  have hrem : (startOf text).cursor.remaining = text.length := rfl
  have hheight : (startOf text).stack.length = 1 := rfl
  have hmul : text.length * (2 * t.length + 2) ≤ text.length * (4 * t.length + 8) :=
    Nat.mul_le_mul_left _ (by omega)
  unfold stepsLeft ReadyTable.fuelFor
  rw [hrem, hheight, Nat.succ_mul text.length]
  omega

/-- The scan of a text gives the tokens of a run to the end, or gets stuck and is endless. -/
theorem scan_cases {t : ReadyTable} {g : Grammar} (ht : t.IsOf g) (text : List Char) :
    (¬ Stalls t (nestedOf t text) (startOf text) ∧
      ∃ n tokens k, Steps t (nestedOf t text) n (startOf text) tokens k ∧ k.cursor.after = [] ∧
        step t (nestedOf t text) k = .ok none ∧ scan t text = .ok tokens) ∨
      (Stalls t (nestedOf t text) (startOf text) ∧ scan t text = .error .endless) := by
  have hk : Stacked t (startOf text).stack := .root ht.root_mem
  by_cases hs : Stalls t (nestedOf t text) (startOf text)
  · exact .inr ⟨hs, run_eq_endless_of_repeats (repeats_of_stalls ht hk hs) _ _⟩
  · obtain ⟨n, hn, tokens, k, hsteps, hafter, hend⟩ := exists_end ht hk hs (.inl le_rfl)
    refine .inl ⟨hs, n, tokens, k, hsteps, hafter, hend, ?_⟩
    have hlt : n < t.fuelFor text.length := Nat.lt_of_le_of_lt hn (stepsLeft_startOf_lt t text)
    exact (run_eq_ok hsteps hend hlt []).trans (by simp)

end Scanner
end DocHighlighter
