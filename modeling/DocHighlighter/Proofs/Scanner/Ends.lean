/-
# Scans that come to an end

A run takes a fuel, and a scan a depth for its nested scans.  Neither is used up by a table
that has two properties:

| property | says |
|---|---|
| `ReadyTable.Descends` | each step lowers a number that is small where a scan begins |
| `ReadyTable.NestsInside` | a group that is scanned on its own is shorter than the text to come |

The first bounds the steps of a run, the second the depth.  So the scan of every text gives
tokens (`exists_placedScan`).
-/

import DocHighlighter.Proofs.Pattern.Beside
import DocHighlighter.Proofs.Scanner.RootOnly
import DocHighlighter.Proofs.Scanner.Steps

namespace DocHighlighter
namespace Scanner

open Text (Cursor)

/-- Whether something lies beside each group of an action that is scanned on its own, in every
match of its pattern, and all such scans are available. -/
def Action.nestsInside (e : Pattern.Expr) : Action → Bool
  | .groups parts => (parts.zipIdx 1).all fun (p, group) =>
    match p with
    | .token _ => true
    | .nested _ => (e.beside group).any (0 < ·)
    | .refused => false
  | .token _ | .nonempty _ | .silent => true

/-- All groups that are scanned on their own have something beside them. -/
def ReadyTable.NestsInside (t : ReadyTable) : Prop :=
  ∀ s ∈ t, ∀ r ∈ s.2, r.action.nestsInside r.pattern.expr = true

/-- The root is at the bottom of the stack. -/
def Config.OnRoot (k : Config) : Prop :=
  k.stack.getLast? = some rootState

/-- Each step of a table lowers a number, which is small where a scan begins. -/
structure ReadyTable.Descends (t : ReadyTable) (height : Config → Nat) : Prop where
  begins : ∀ text (state : Option String),
    height ⟨.start text, state.toList ++ [rootState]⟩ < 8 * (text.length + 1)
  lowers : ∀ k k', k.OnRoot → k.next? t = some k' → height k' < height k

variable {t : ReadyTable} {k k' : Config}

/-! ## What steps keep -/

theorem Move.getLast?_apply (m : Move) {stack : List String} {bottom : String}
    (h : stack.getLast? = some bottom) : (m.apply stack).getLast? = some bottom := by
  cases m with
  | pop =>
    match stack, h with
    | [_], h => exact h
    | _ :: below :: rest, h =>
      rw [Move.apply, ← h, List.getLast?_cons_cons]
  | again =>
    match stack, h with
    | top :: rest, h => rw [Move.apply, List.getLast?_cons_cons, h]
  | enter state =>
    match stack, h with
    | top :: rest, h => rw [Move.apply, List.getLast?_cons_cons, h]

theorem getLast?_foldl_apply (moves : List Move) {stack : List String} {bottom : String}
    (h : stack.getLast? = some bottom) :
    (moves.foldl (fun s m => m.apply s) stack).getLast? = some bottom := by
  induction moves generalizing stack with
  | nil => exact h
  | cons m moves ih => exact ih (m.getLast?_apply h)

/-- A step makes the first match, or it passes one character that nothing matches at. -/
theorem Config.next?_cases (h : k.next? t = some k') :
    (∃ r m, firstMatch? (t.active k.stack) k.cursor = some (r, m) ∧
        k' = ⟨m.stop, r.moves.foldl (fun s m => m.apply s) k.stack⟩) ∨
      ∃ c d, k.cursor.next? = some (c, d) ∧ (k' = ⟨d, [rootState]⟩ ∨ k' = ⟨d, k.stack⟩) := by
  unfold Config.next? at h
  split at h
  · next r m hfirst => exact .inl ⟨r, m, hfirst, (Option.some.inj h).symm⟩
  · obtain ⟨⟨c, d⟩, hnext, rfl⟩ := Option.map_eq_some_iff.1 h
    refine .inr ⟨c, d, hnext, ?_⟩
    dsimp only
    split_ifs
    · exact .inl rfl
    · exact .inr rfl

theorem Config.OnRoot.next (hroot : k.OnRoot) (h : k.next? t = some k') : k'.OnRoot := by
  obtain ⟨r, m, -, rfl⟩ | ⟨c, d, -, rfl | rfl⟩ := Config.next?_cases h
  · exact getLast?_foldl_apply r.moves hroot
  · exact rfl
  · exact hroot

theorem Config.leadsTo_of_next? (h : k.next? t = some k') : k.cursor.LeadsTo k'.cursor := by
  obtain ⟨r, m, hfirst, rfl⟩ | ⟨c, d, hnext, rfl | rfl⟩ := Config.next?_cases h
  · exact Pattern.leadsTo_of_matchAt? (matchAt?_of_firstMatch? hfirst).2
  · exact .of_next? hnext
  · exact .of_next? hnext

theorem remaining_le_of_leadsTo {c d : Cursor} (h : c.LeadsTo d) : d.remaining ≤ c.remaining := by
  have hboth := h.remaining_eq
  have hpos := h.pos_le
  omega

/-! ## Steps are made -/

/-- The rules that are tried stand in the table. -/
theorem mem_of_mem_active {stack : List String} {r : ReadyRule} (h : r ∈ t.active stack) :
    ∃ top rest rules, stack = top :: rest ∧ (top, rules) ∈ t ∧ t.active stack = rules := by
  cases stack with
  | nil => cases h
  | cons top rest =>
    refine ⟨top, rest, t.rules top, rfl, ?_, rfl⟩
    change r ∈ t.rules top at h
    unfold ReadyTable.rules at h ⊢
    cases hlookup : t.lookup top with
    | none =>
      rw [hlookup] at h
      cases h
    | some rules =>
      obtain ⟨before, after, rfl, -⟩ := List.lookup_eq_some_iff.1 hlookup
      simp

section Steps

variable {nested : PlacedNested} {c : Cursor} {r : ReadyRule} {m : Pattern.Match}

/-- The nested scans of all texts that are shorter than the text to come give tokens. -/
def ScansShorter (nested : PlacedNested) (c : Cursor) : Prop :=
  ∀ text (state : Option String), text.length < c.remaining →
    ∃ ps, nested text (state.toList ++ [rootState]) = .ok ps

theorem exists_groupPlacedTokens {parts : List Part} {first : Nat}
    (h : ∀ p group, (p, group) ∈ parts.zipIdx first →
      ∃ ps, p.placedTokens nested m group = .ok ps) :
    ∃ ps, groupPlacedTokens nested m first parts = .ok ps := by
  induction parts generalizing first with
  | nil => exact ⟨[], rfl⟩
  | cons p parts ih =>
    obtain ⟨here, hhere⟩ := h p first (by rw [List.zipIdx_cons]; exact List.mem_cons_self)
    obtain ⟨rest, hrest⟩ := ih fun q group hq =>
      h q group (by rw [List.zipIdx_cons]; exact List.mem_cons_of_mem _ hq)
    exact ⟨here ++ rest, by simp [groupPlacedTokens, hhere, hrest, bind, Except.bind, pure,
      Except.pure]⟩

theorem Part.exists_placedTokens_nested (hscans : ScansShorter nested c) {group n : Nat}
    (hbeside : r.pattern.expr.beside group = some (n + 1)) (hm : r.pattern.matchAt? c = some m)
    (state : Option String) : ∃ ps, (Part.nested state).placedTokens nested m group = .ok ps := by
  simp only [Part.placedTokens]
  cases hs : m.captures.get? group with
  | none => exact ⟨_, rfl⟩
  | some s =>
    obtain ⟨ps, hps⟩ := hscans s.text state (Pattern.length_text_lt_of_beside hbeside hm hs)
    exact ⟨_, congrArg (Except.map (List.map (PlacedToken.shift s.start.pos))) hps⟩

/-- A match gives tokens. -/
theorem exists_placedTokens_of_nestsInside (hscans : ScansShorter nested c)
    (hm : r.pattern.matchAt? c = some m) (hinside : r.action.nestsInside r.pattern.expr = true) :
    ∃ ps, r.action.placedTokens nested c m = .ok ps := by
  unfold Action.placedTokens
  cases haction : r.action with
  | token kind => exact ⟨_, rfl⟩
  | silent => exact ⟨_, rfl⟩
  | nonempty kind =>
    dsimp only
    split_ifs <;> exact ⟨_, rfl⟩
  | groups parts =>
    refine exists_groupPlacedTokens fun p group hp => ?_
    rw [haction] at hinside
    have hpart := List.all_eq_true.1 hinside (p, group) hp
    cases p with
    | refused => cases hpart
    | token kind =>
      unfold Part.placedTokens
      cases m.captures.get? group with
      | none => exact ⟨_, rfl⟩
      | some s =>
        dsimp only
        split_ifs <;> exact ⟨_, rfl⟩
    | nested state =>
      obtain ⟨n, hn, hpos⟩ := (Option.any_eq_true ..).1 hpart
      obtain ⟨n, rfl⟩ := Nat.exists_eq_succ_of_ne_zero (Nat.pos_iff_ne_zero.1 (by simpa using hpos))
      exact Part.exists_placedTokens_nested hscans hn hm state

theorem exists_placedStep (hinside : t.NestsInside) (hscans : ScansShorter nested k.cursor) :
    ∃ next, placedStep t nested k = .ok next := by
  unfold placedStep
  split
  · next r m hfirst =>
    obtain ⟨hr, hm⟩ := matchAt?_of_firstMatch? hfirst
    obtain ⟨top, rest, rules, hstack, hmem, hactive⟩ := mem_of_mem_active hr
    obtain ⟨ps, hps⟩ :=
      exists_placedTokens_of_nestsInside hscans hm (hinside _ hmem r (hactive ▸ hr))
    exact ⟨_, by rw [hps]; rfl⟩
  · split
    · exact ⟨_, rfl⟩
    · split_ifs <;> exact ⟨_, rfl⟩

end Steps

/-! ## Runs and scans -/

section Runs

variable {height : Config → Nat} {nested : PlacedNested}

/-- A run has as many steps at most as the number is high at its beginning. -/
theorem exists_placedRun (hinside : t.NestsInside) (hdescends : t.Descends height)
    {fuel : Nat} (hroot : k.OnRoot) (hscans : ScansShorter nested k.cursor)
    (hheight : height k < fuel) (ps : List PlacedToken) :
    ∃ qs, placedRun t nested fuel k ps = .ok qs := by
  induction fuel generalizing k ps with
  | zero => omega
  | succ fuel ih =>
    obtain ⟨next, hstep⟩ := exists_placedStep hinside hscans
    simp only [placedRun, hstep, bind, Except.bind]
    cases next with
    | none => exact ⟨_, rfl⟩
    | some answer =>
      obtain ⟨more, k'⟩ := answer
      have hnext : k.next? t = some k' := next?_of_placedStep hstep
      have hlower := hdescends.lowers k k' hroot hnext
      have hremaining := remaining_le_of_leadsTo (Config.leadsTo_of_next? hnext)
      exact ih (hroot.next hnext) (fun text state hlt => hscans text state (by omega))
        (by omega) _

/-- A scan whose depth is more than the length of its text gives tokens, from the root or from one
further state: by induction on the depth. -/
theorem exists_placedScanFrom (hinside : t.NestsInside) (hdescends : t.Descends height)
    {depth : Nat} {text : List Char} (hdepth : text.length < depth) (state : Option String) :
    ∃ ps, placedScanFrom t depth text (state.toList ++ [rootState]) = .ok ps := by
  induction depth generalizing text state with
  | zero => omega
  | succ depth ih =>
    have hfuel : 8 * (text.length + 1) ≤ t.fuelFor text.length := by
      rw [ReadyTable.fuelFor, Nat.mul_comm]
      exact Nat.mul_le_mul_left _ (by omega)
    refine exists_placedRun hinside hdescends ?_ (fun inner state' hlt => ?_) ?_ []
    · exact List.getLast?_concat
    · have hlength : inner.length < text.length := hlt
      exact ih (by omega) state'
    · exact Nat.lt_of_lt_of_le (hdescends.begins text state) hfuel

/-- **Every text can be scanned** by a table whose steps descend and whose nested scans are
shorter. -/
theorem exists_placedScan (hinside : t.NestsInside) (hdescends : t.Descends height)
    (text : List Char) : ∃ ps, placedScan t text = .ok ps :=
  exists_placedScanFrom hinside hdescends (by omega) none

end Runs

end Scanner
end DocHighlighter
