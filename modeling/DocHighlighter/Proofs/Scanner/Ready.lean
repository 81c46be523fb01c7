/-
# Reading the rules of a table

A table is made ready by reading the patterns of its rules (`Source.Reads`).  If all of them
can be read there is a ready table (`Table.exists_ready`), and its rules are the rules of the
table, state by state and one by one (`Table.forall₂_of_ready_eq_ok`).
-/

import DocHighlighter.Scanner.Run
import Mathlib.Data.List.Forall2

namespace DocHighlighter

theorem exists_ok_of_bind {ε α β : Type} {x : Except ε α} {f : α → Except ε β} {b : β}
    (h : x >>= f = .ok b) : ∃ a, x = .ok a ∧ f a = .ok b := by
  cases x with
  | error e => simp [bind, Except.bind] at h
  | ok a => exact ⟨a, rfl, h⟩

theorem eq_ok_of_toOption {ε α : Type} {x : Except ε α} {a : α} (h : x.toOption = some a) :
    x = .ok a := by
  cases x with
  | error fault => cases h
  | ok b => rw [Option.some.inj h]

theorem exists_mapM_eq_ok {α β ε : Type} {f : α → Except ε β} {xs : List α}
    (h : ∀ x ∈ xs, ∃ y, f x = .ok y) :
    ∃ ys, xs.mapM f = .ok ys ∧ List.Forall₂ (fun x y => f x = .ok y) xs ys := by
  induction xs with
  | nil => exact ⟨[], rfl, .nil⟩
  | cons x rest ih =>
    obtain ⟨y, hy⟩ := h x List.mem_cons_self
    obtain ⟨ys, hys, hall⟩ := ih fun z hz => h z (List.mem_cons_of_mem _ hz)
    exact ⟨y :: ys, by simp [hy, hys, bind, Except.bind, pure, Except.pure],
      .cons hy hall⟩

theorem forall₂_of_mapM_eq_ok {α β ε : Type} {f : α → Except ε β} {xs : List α} {ys : List β}
    (h : xs.mapM f = .ok ys) : List.Forall₂ (fun x y => f x = .ok y) xs ys := by
  induction xs generalizing ys with
  | nil =>
    obtain rfl := Except.ok.inj h
    exact .nil
  | cons x rest ih =>
    rw [List.mapM_cons] at h
    obtain ⟨y, hx, h⟩ := exists_ok_of_bind h
    obtain ⟨zs, hr, h⟩ := exists_ok_of_bind h
    obtain rfl := Except.ok.inj h
    exact .cons hx (ih hr)

theorem exists_mem_of_forall₂ {α β : Type} {R : α → β → Prop} {xs : List α} {ys : List β}
    (h : List.Forall₂ R xs ys) : (∀ x ∈ xs, ∃ y ∈ ys, R x y) ∧ ∀ y ∈ ys, ∃ x ∈ xs, R x y := by
  induction h with
  | nil => exact ⟨by simp, by simp⟩
  | cons hxy _ ih =>
    refine ⟨fun x hx => ?_, fun y hy => ?_⟩
    · rcases List.mem_cons.1 hx with rfl | hx
      · exact ⟨_, List.mem_cons_self, hxy⟩
      · obtain ⟨y, hy, hr⟩ := ih.1 x hx
        exact ⟨y, List.mem_cons_of_mem _ hy, hr⟩
    · rcases List.mem_cons.1 hy with rfl | hy
      · exact ⟨_, List.mem_cons_self, hxy⟩
      · obtain ⟨x, hx, hr⟩ := ih.2 y hy
        exact ⟨x, List.mem_cons_of_mem _ hx, hr⟩

namespace Scanner

/-- The pattern of a rule once it is read. -/
def Source.Reads (flags : Pattern.Flags) : Source → Pattern → Prop
  | .written text, p => Pattern.read flags text = .ok p
  | .built e, p => p = ⟨e, flags⟩

theorem Rule.ready_eq_ok {flags : Pattern.Flags} {state : String} {r : Rule}
    {rr : ReadyRule} : r.ready flags state = .ok rr ↔
      r.pattern.Reads flags rr.pattern ∧ rr.action = r.action ∧ rr.moves = r.moves := by
  obtain ⟨pattern, action, moves⟩ := r
  obtain ⟨pattern', action', moves'⟩ := rr
  unfold Rule.ready
  cases pattern with
  | built e => simp [Source.Reads, eq_comm]
  | written text =>
    dsimp only
    cases h : Pattern.read flags text with
    | ok p => simp [Source.Reads, h, eq_comm]
    | error e => simp [Source.Reads, h]

/-- The rules of a ready table are the rules of the table with their patterns read. -/
theorem Table.forall₂_of_ready_eq_ok {flags : Pattern.Flags} {t : Table}
    {ready : ReadyTable} (h : t.ready flags = .ok ready) :
    List.Forall₂ (fun s rs => rs.1 = s.1 ∧
      List.Forall₂ (fun r rr => Rule.ready flags s.1 r = .ok rr) s.2 rs.2) t ready := by
  refine (forall₂_of_mapM_eq_ok h).imp ?_
  rintro ⟨state, rules⟩ ⟨state', rules'⟩ hs
  obtain ⟨rs, hr, h⟩ := exists_ok_of_bind hs
  obtain ⟨rfl, rfl⟩ := Prod.mk.inj (Except.ok.inj h)
  exact ⟨rfl, forall₂_of_mapM_eq_ok hr⟩

/-- A table is ready if all its patterns can be read. -/
theorem Table.exists_ready {flags : Pattern.Flags} {t : Table}
    (h : ∀ s ∈ t, ∀ r ∈ s.2, ∃ p, r.pattern.Reads flags p) :
    ∃ ready, t.ready flags = .ok ready := by
  refine (exists_mapM_eq_ok fun s hs => ?_).imp fun _ hr => hr.1
  have hrules : ∀ r ∈ s.2, ∃ rr, Rule.ready flags s.1 r = .ok rr := fun r hr => by
    obtain ⟨p, hp⟩ := h s hs r hr
    exact ⟨⟨p, r.action, r.moves⟩, Rule.ready_eq_ok.2 ⟨hp, rfl, rfl⟩⟩
  obtain ⟨rs, hrs, -⟩ := exists_mapM_eq_ok hrules
  exact ⟨(s.1, rs), by simp [hrs, bind, Except.bind, pure, Except.pure]⟩

theorem Table.names_eq_of_ready {flags : Pattern.Flags} {t : Table} {ready : ReadyTable}
    (h : t.ready flags = .ok ready) : ready.map Prod.fst = t.map Prod.fst := by
  have hall := Table.forall₂_of_ready_eq_ok h
  clear h
  induction hall with
  | nil => rfl
  | cons hs _ ih => rw [List.map_cons, List.map_cons, hs.1, ih]

/-- The state of a ready table holds the rules of the table with their patterns read. -/
theorem Table.ready_rules {flags : Pattern.Flags} {table : Table} {ready : ReadyTable}
    (h : table.ready flags = .ok ready) {state : String} {rules : List Rule}
    (hrules : table.lookup state = some rules) :
    List.Forall₂ (fun r rr => Rule.ready flags state r = .ok rr) rules (ready.rules state) := by
  have hall := Table.forall₂_of_ready_eq_ok h
  clear h
  unfold ReadyTable.rules
  induction hall with
  | nil => cases hrules
  | @cons s rs table ready hs _ ih =>
    obtain ⟨name, rules₀⟩ := s
    obtain ⟨name', ready₀⟩ := rs
    obtain ⟨rfl, hready⟩ := hs
    rw [List.lookup_cons] at hrules ⊢
    cases hname : state == name' with
    | true =>
      rw [hname] at hrules
      obtain rfl := Option.some.inj hrules
      obtain rfl := beq_iff_eq.1 hname
      exact hready
    | false =>
      rw [hname] at hrules
      exact ih hrules

end Scanner
end DocHighlighter
