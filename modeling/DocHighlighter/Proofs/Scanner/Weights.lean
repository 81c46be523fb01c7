/-
# Weighing a stack of states

To see that a scan comes to an end, each state is given a weight, and the state on top a bonus
at each place (`Weights`).  A step that takes a character can only gain a little weight, less
than a character counts (`Weights.height_lt_of_remaining`).  A rule that takes none must lower
the weight where no rule before it matches (`Rule.Lowers`).

A table each of whose rules takes a character or lowers the weight (`Table.Settles`) gives
tokens for every text (`Table.Settles.exists_placedScan`).
-/

import DocHighlighter.Proofs.Pattern.Words
import DocHighlighter.Proofs.Scanner.Ends
import DocHighlighter.Proofs.Scanner.Ready

namespace DocHighlighter
namespace Scanner

open Text (Cursor)

/-- How much each state of a stack weighs, and how much more the one on top at a place. -/
structure Weights where
  weight : String → Nat
  bonus : Cursor → String → Nat
  weight_le : ∀ state, weight state ≤ 2
  bonus_le : ∀ c state, bonus c state ≤ 3
  weight_root : weight rootState = 0

namespace Weights

variable (w : Weights)

/-- The weight of all states of a stack. -/
def load (stack : List String) : Nat :=
  stack.foldr (fun state n => w.weight state + n) 0

/-- The weight of a stack at a place. -/
def loadAt (c : Cursor) (stack : List String) : Nat :=
  w.load stack + (stack.head?.map (w.bonus c)).getD 0

/-- What the steps of a run lower: the text to come, a character for eight, and the weight. -/
def height (k : Config) : Nat :=
  8 * k.cursor.remaining + w.loadAt k.cursor k.stack

theorem load_cons (state : String) (stack : List String) :
    w.load (state :: stack) = w.weight state + w.load stack :=
  rfl

theorem loadAt_cons (c : Cursor) (state : String) (stack : List String) :
    w.loadAt c (state :: stack) = w.weight state + w.load stack + w.bonus c state :=
  rfl

theorem loadAt_le (c : Cursor) (stack : List String) : w.loadAt c stack ≤ w.load stack + 3 := by
  cases stack with
  | nil => exact Nat.le_add_right _ _
  | cons top rest =>
    have hbonus := w.bonus_le c top
    rw [loadAt_cons, load_cons]
    omega

theorem load_le_loadAt (c : Cursor) (stack : List String) : w.load stack ≤ w.loadAt c stack :=
  Nat.le_add_right _ _

theorem load_apply_le (m : Move) (stack : List String) :
    w.load (m.apply stack) ≤ w.load stack + 2 := by
  cases m with
  | pop =>
    rcases stack with - | ⟨top, - | ⟨below, rest⟩⟩
    · exact Nat.le_add_right _ _
    · exact Nat.le_add_right _ _
    · rw [Move.apply, w.load_cons top]
      omega
  | again =>
    cases stack with
    | nil => exact Nat.le_add_right _ _
    | cons top rest =>
      have hweight := w.weight_le top
      rw [Move.apply, w.load_cons top (top :: rest)]
      omega
  | enter state =>
    have hweight := w.weight_le state
    rw [Move.apply, w.load_cons]
    omega

theorem load_foldl_apply_le (moves : List Move) (stack : List String) :
    w.load (moves.foldl (fun s m => m.apply s) stack) ≤ w.load stack + 2 * moves.length := by
  induction moves generalizing stack with
  | nil => exact Nat.le_refl _
  | cons m moves ih =>
    have hfirst := w.load_apply_le m stack
    have hthen := ih (m.apply stack)
    rw [List.foldl_cons, List.length_cons]
    omega

theorem height_begins (text : List Char) (state : Option String) :
    w.height ⟨.start text, state.toList ++ [rootState]⟩ < 8 * (text.length + 1) := by
  have hload : w.load (state.toList ++ [rootState]) ≤ 2 := by
    have hroot := w.weight_root
    cases state with
    | none => exact Nat.le_trans (Nat.le_of_eq hroot) (by omega)
    | some state => exact Nat.le_trans (Nat.le_of_eq (by simp [load, hroot])) (w.weight_le state)
  have hloadAt := w.loadAt_le (.start text) (state.toList ++ [rootState])
  change 8 * text.length + w.loadAt (.start text) (state.toList ++ [rootState]) < _
  omega

/-- A step that takes a character lowers the height. -/
theorem height_lt_of_remaining {k k' : Config} (h : k'.cursor.remaining < k.cursor.remaining)
    (hload : w.load k'.stack ≤ w.load k.stack + 4) : w.height k' < w.height k := by
  have hat := w.load_le_loadAt k.cursor k.stack
  have hat' := w.loadAt_le k'.cursor k'.stack
  unfold height
  omega

end Weights

/-! ## Rules of a table -/

variable {flags : Pattern.Flags}

/-- A rule can be read, its nested scans are shorter than the text to come, and it makes two moves
at most. -/
structure Rule.IsSound (flags : Pattern.Flags) (r : Rule) (p : Pattern) : Prop where
  reads : r.pattern.Reads flags p
  nestsInside : r.action.nestsInside p.expr = true
  moves : r.moves.length ≤ 2

/-- A rule takes a character or more where it matches. -/
def Rule.Takes (flags : Pattern.Flags) (r : Rule) : Prop :=
  ∃ p, r.IsSound flags p ∧ p.NeverEmpty

/-- A rule does not match at a place. -/
def Rule.Misses (flags : Pattern.Flags) (c : Cursor) (r : Rule) : Prop :=
  ∀ p, r.pattern.Reads flags p → p.matchAt? c = none

/-- A rule of a state lowers the weight of a stack, where it matches and the given rules do not. -/
def Rule.Lowers (w : Weights) (flags : Pattern.Flags) (state : String) (before : List Rule)
    (r : Rule) : Prop :=
  ∃ p, r.IsSound flags p ∧ ∀ c rest, (p.matchAt? c).isSome → (∀ r' ∈ before, r'.Misses flags c) →
    (state :: rest).getLast? = some rootState →
      w.loadAt c (r.moves.foldl (fun s m => m.apply s) (state :: rest)) < w.loadAt c (state :: rest)

/-- Each rule of a table takes a character or lowers the weight. -/
def Table.Settles (w : Weights) (flags : Pattern.Flags) (t : Table) : Prop :=
  ∀ s ∈ t, ∀ before r after, s.2 = before ++ r :: after →
    r.Takes flags ∨ r.Lowers w flags s.1 before

theorem Source.Reads.unique {source : Source} {p p' : Pattern} (h : source.Reads flags p)
    (h' : source.Reads flags p') : p = p' := by
  cases source with
  | built e => exact Eq.trans h (Eq.symm h')
  | written text => exact Except.ok.inj (Eq.trans (Eq.symm h) h')

/-- The first rule that matches once the rules are read is a rule such that those before it do not
match. -/
theorem exists_split_of_firstMatch? {state : String} {rules : List Rule} {ready : List ReadyRule}
    (hall : List.Forall₂ (fun r rr => Rule.ready flags state r = .ok rr) rules ready) {c : Cursor}
    {rr : ReadyRule} {m : Pattern.Match} (hfirst : firstMatch? ready c = some (rr, m)) :
    ∃ before r after, rules = before ++ r :: after ∧ Rule.ready flags state r = .ok rr ∧
      ∀ r' ∈ before, r'.Misses flags c := by
  induction hall with
  | nil => cases hfirst
  | @cons r₀ rr₀ rules ready hr₀ _ ih =>
    unfold firstMatch? at hfirst ih
    rw [List.findSome?_cons] at hfirst
    cases hm : rr₀.pattern.matchAt? c with
    | some m₀ =>
      rw [hm] at hfirst
      obtain ⟨rfl, -⟩ := Prod.mk.inj (Option.some.inj hfirst)
      exact ⟨[], r₀, rules, rfl, hr₀, by simp⟩
    | none =>
      rw [hm] at hfirst
      obtain ⟨before, r, after, rfl, hr, hbefore⟩ := ih hfirst
      refine ⟨r₀ :: before, r, after, rfl, hr, fun r' hr' => ?_⟩
      rcases List.mem_cons.1 hr' with rfl | hr'
      · intro p hp
        rw [hp.unique (Rule.ready_eq_ok.1 hr₀).1, hm]
      · exact hbefore r' hr'

section Tables

variable {w : Weights} {t : Table} {ready : ReadyTable}

/-- A rule of a table that settles, once it is read. -/
theorem Table.Settles.isSound (h : t.Settles w flags) {s : String × List Rule} (hs : s ∈ t)
    {r : Rule} (hr : r ∈ s.2) : ∃ p, r.IsSound flags p := by
  obtain ⟨before, after, heq⟩ := List.append_of_mem hr
  rcases h s hs before r after heq with ⟨p, hp, -⟩ | ⟨p, hp, -⟩ <;> exact ⟨p, hp⟩

theorem Table.Settles.nestsInside (h : t.Settles w flags) (hready : t.ready flags = .ok ready) :
    ready.NestsInside := by
  intro s' hs' rr hrr
  obtain ⟨s, hs, -, hrules⟩ := (exists_mem_of_forall₂ (Table.forall₂_of_ready_eq_ok hready)).2 s' hs'
  obtain ⟨r, hr, hread⟩ := (exists_mem_of_forall₂ hrules).2 rr hrr
  obtain ⟨p, hp⟩ := h.isSound hs hr
  obtain ⟨hp', haction, -⟩ := Rule.ready_eq_ok.1 hread
  rw [haction, hp'.unique hp.reads]
  exact hp.nestsInside

/-- A match of a rule that takes a character or lowers the weight lowers the height. -/
theorem height_lt_of_match {c : Cursor} {m : Pattern.Match} {top : String} {rest : List String}
    {before : List Rule} {r : Rule} {p : Pattern} (hp : r.pattern.Reads flags p)
    (hm : p.matchAt? c = some m) (hbefore : ∀ r' ∈ before, r'.Misses flags c)
    (hroot : (top :: rest).getLast? = some rootState)
    (hr : r.Takes flags ∨ r.Lowers w flags top before) :
    w.height ⟨m.stop, r.moves.foldl (fun s m => m.apply s) (top :: rest)⟩ <
      w.height ⟨c, top :: rest⟩ := by
  by_cases hstop : m.stop = c
  · rcases hr with ⟨p', hsound, hnever⟩ | ⟨p', hsound, hlowers⟩
    · rw [hp.unique hsound.reads] at hm
      exact absurd hstop (hnever c m hm)
    · rw [hp.unique hsound.reads] at hm
      have hlower := hlowers c rest (by rw [hm]; rfl) hbefore hroot
      rw [hstop]
      exact Nat.add_lt_add_left hlower _
  · have hlead := Pattern.leadsTo_of_matchAt? hm
    have hremaining := hlead.remaining_eq
    have hpos := hlead.pos_lt hstop
    have hmoves : r.moves.length ≤ 2 := by
      rcases hr with ⟨p', hsound, -⟩ | ⟨p', hsound, -⟩ <;> exact hsound.moves
    have hload := w.load_foldl_apply_le r.moves (top :: rest)
    exact w.height_lt_of_remaining (show m.stop.remaining < c.remaining by omega)
      (Nat.le_trans hload (by dsimp only; omega))

/-- **The steps of a table that settles lower the height.** -/
theorem Table.Settles.descends (h : t.Settles w flags) (hready : t.ready flags = .ok ready) :
    ready.Descends w.height := by
  refine ⟨w.height_begins, fun k k' hroot hnext => ?_⟩
  obtain ⟨rr, m, hfirst, rfl⟩ | ⟨a, d, hd, hk'⟩ := Config.next?_cases hnext
  · obtain ⟨hrr, hm⟩ := matchAt?_of_firstMatch? hfirst
    obtain ⟨top, rest, rules, hstack, hs', hactive⟩ := mem_of_mem_active hrr
    obtain ⟨s, hs, hname, hrules⟩ :=
      (exists_mem_of_forall₂ (Table.forall₂_of_ready_eq_ok hready)).2 _ hs'
    rw [hactive] at hfirst
    obtain ⟨before, r, after, heq, hread, hbefore⟩ := exists_split_of_firstMatch? hrules hfirst
    obtain ⟨hp, -, hmoves⟩ := Rule.ready_eq_ok.1 hread
    have hsettles := h s hs before r after heq
    rw [← hname] at hsettles
    obtain ⟨c, stack⟩ := k
    obtain rfl : stack = top :: rest := hstack
    rw [hmoves]
    exact height_lt_of_match hp hm hbefore hroot hsettles
  · have hremaining := Cursor.remaining_eq_of_next? hd
    have hroot := w.weight_root
    rcases hk' with rfl | rfl
    · exact w.height_lt_of_remaining (show d.remaining < k.cursor.remaining by omega)
        (Nat.le_trans (Nat.le_of_eq hroot) (Nat.zero_le _))
    · exact w.height_lt_of_remaining (show d.remaining < k.cursor.remaining by omega)
        (Nat.le_add_right _ _)

/-- **A table that settles gives tokens for every text.** -/
theorem Table.Settles.exists_placedScan (h : t.Settles w flags) :
    ∃ ready, t.ready flags = .ok ready ∧ ∀ text, ∃ ps, placedScan ready text = .ok ps := by
  have hreads : ∀ s ∈ t, ∀ r ∈ s.2, ∃ p, r.pattern.Reads flags p := fun s hs r hr =>
    (h.isSound hs hr).imp fun _ hp => hp.reads
  obtain ⟨ready, hready⟩ := Table.exists_ready hreads
  exact ⟨ready, hready, Scanner.exists_placedScan (h.nestsInside hready) (h.descends hready)⟩

end Tables

end Scanner
end DocHighlighter
