/-
# Matching moves on

A match begins at a place of a text and ends at that place or behind it
(`Pattern.leadsTo_of_matchAt?`): whatever there is on the way, looks to either side,
repetitions or groups, a passage of an expression leads to a later place
(`Cursor.LeadsTo`).

The statements count as well.  A passage takes at least the least width of its
expression (`Expr.leadsTo_of_passes`): one expression after another adds up, and a
body takes as much as the turns that it must have (`leadsTo_of_turns`).
`Turn.Takes n` says it of a way to match: it takes `n` characters or more.
-/

import DocHighlighter.Pattern.Width
import DocHighlighter.Proofs.Pattern.Passages
import Mathlib.Data.Nat.Basic

namespace DocHighlighter
namespace Text
namespace Cursor

/-- `d` lies at the place `c` of the same text or behind it. -/
def LeadsTo (c d : Cursor) : Prop :=
  ∃ w, c.after = w ++ d.after ∧ d.before = w.reverse ++ c.before

@[ext]
theorem ext {c d : Cursor} (hb : c.before = d.before) (ha : c.after = d.after) : c = d := by
  obtain ⟨before, after, pos, remaining, rfl, rfl⟩ := c
  obtain ⟨before', after', pos', remaining', rfl, rfl⟩ := d
  obtain rfl : before = before' := hb
  obtain rfl : after = after' := ha
  rfl

@[refl]
theorem LeadsTo.refl (c : Cursor) : c.LeadsTo c :=
  ⟨[], rfl, rfl⟩

theorem LeadsTo.trans {c d e : Cursor} (h : c.LeadsTo d) (h' : d.LeadsTo e) : c.LeadsTo e := by
  obtain ⟨w, ha, hb⟩ := h
  obtain ⟨v, ha', hb'⟩ := h'
  exact ⟨w ++ v, by rw [ha, ha', List.append_assoc], by
    rw [hb', hb, List.reverse_append, List.append_assoc]⟩

theorem LeadsTo.of_next? {c d : Cursor} {a : Char} (h : c.next? = some (a, d)) : c.LeadsTo d :=
  ⟨[a], after_eq_of_next? h, before_eq_of_next? h⟩

theorem pos_eq_of_next? {c d : Cursor} {a : Char} (h : c.next? = some (a, d)) :
    d.pos = c.pos + 1 := by
  rw [d.pos_eq, c.pos_eq, before_eq_of_next? h, List.length_cons]

theorem LeadsTo.pos_le {c d : Cursor} (h : c.LeadsTo d) : c.pos ≤ d.pos := by
  obtain ⟨w, -, hb⟩ := h
  rw [c.pos_eq, d.pos_eq, hb, List.length_append]
  omega

/-- What lies between two places and what lies after the second make up what lies after the
first. -/
theorem LeadsTo.after_eq {c d : Cursor} (h : c.LeadsTo d) : c.after = c.upTo d ++ d.after := by
  obtain ⟨w, ha, hb⟩ := h
  have hw : d.pos - c.pos = w.length := by
    rw [d.pos_eq, c.pos_eq, hb, List.length_append, List.length_reverse]
    omega
  rw [upTo, hw, ha, List.take_left]

/-- What lies right before a place that is reached over a text is the end of the text. -/
theorem LeadsTo.before_eq {c d : Cursor} (h : c.LeadsTo d) :
    d.before = (c.upTo d).reverse ++ c.before := by
  have hafter := h.after_eq
  obtain ⟨w, ha, hb⟩ := h
  rw [hb, List.append_cancel_right (ha.symm.trans hafter)]

theorem LeadsTo.pos_eq {c d : Cursor} (h : c.LeadsTo d) : d.pos = c.pos + (c.upTo d).length := by
  rw [d.pos_eq, c.pos_eq, h.before_eq, List.length_append, List.length_reverse, Nat.add_comm]

/-- The text is the same at every place that a place leads to. -/
theorem LeadsTo.text_eq {c d : Cursor} (h : c.LeadsTo d) : d.text = c.text := by
  obtain ⟨w, ha, hb⟩ := h
  rw [text, text, ha, hb]
  simp

theorem LeadsTo.eq_of_pos_eq {c d : Cursor} (h : c.LeadsTo d) (hp : d.pos = c.pos) : d = c := by
  obtain ⟨w, ha, hb⟩ := h
  have hw : w = [] := by
    rw [d.pos_eq, c.pos_eq, hb, List.length_append, List.length_reverse] at hp
    exact List.length_eq_zero_iff.1 (by omega)
  subst hw
  exact ext hb ha.symm

theorem LeadsTo.pos_lt {c d : Cursor} (h : c.LeadsTo d) (hne : d ≠ c) : c.pos < d.pos :=
  Nat.lt_of_le_of_ne h.pos_le fun heq => hne (h.eq_of_pos_eq heq.symm)

/-- Nothing lies between two places exactly if they are the same. -/
theorem LeadsTo.upTo_eq_nil {c d : Cursor} (h : c.LeadsTo d) : c.upTo d = [] ↔ d = c := by
  constructor
  · intro he
    have ha := h.after_eq
    rw [he, List.nil_append] at ha
    refine h.eq_of_pos_eq ?_
    obtain ⟨w, ha', hb⟩ := h
    have hw : w = [] := List.self_eq_append_left.1 (ha ▸ ha')
    rw [d.pos_eq, c.pos_eq, hb, hw]
    rfl
  · rintro rfl
    simp [upTo]

/-- As many characters are taken from what is to come as the position moves on. -/
theorem LeadsTo.remaining_eq {c d : Cursor} (h : c.LeadsTo d) :
    c.remaining + c.pos = d.remaining + d.pos := by
  obtain ⟨w, ha, hb⟩ := h
  rw [c.remaining_eq, d.remaining_eq, c.pos_eq, d.pos_eq, ha, hb, List.length_append,
    List.length_append, List.length_reverse]
  omega

end Cursor
end Text

namespace Pattern

open Text (Cursor)

/-- A way to match that takes `n` characters or more, and asks its continuation only about places
that the first place leads to. -/
def Turn.Takes (n : Nat) (turn : Turn) : Prop :=
  ∀ c g k m, turn c g k = some m → ∃ d h, c.LeadsTo d ∧ c.pos + n ≤ d.pos ∧ k d h = some m

namespace Turn.Takes

variable {turn turn' : Turn} {n n' : Nat}

theorem mono (h : turn.Takes n) (hn : n' ≤ n) : turn.Takes n' := by
  intro c g k m hm
  obtain ⟨d, g', hd, hp, hk⟩ := h c g k m hm
  exact ⟨d, g', hd, by omega, hk⟩

/-- One way to match after another takes as much as both. -/
theorem seq (h : turn.Takes n) (h' : turn'.Takes n') :
    Turn.Takes (n + n') fun c g k => turn c g fun d g' => turn' d g' k := by
  intro c g k m hm
  obtain ⟨d, g', hd, hp, hk⟩ := h c g _ m hm
  obtain ⟨e, g'', he, hp', hk'⟩ := h' d g' k m hk
  exact ⟨e, g'', hd.trans he, by omega, hk'⟩

end Turn.Takes

theorem Turn.Follows.takes {R : Passage} {turn : Turn} {n : Nat} (h : turn.Follows R)
    (hR : ∀ {c g d i}, R c g d i → c.LeadsTo d ∧ c.pos + n ≤ d.pos) : turn.Takes n := by
  intro c g k m hm
  obtain ⟨d, i, hpass, hk⟩ := h c g k m hm
  exact ⟨d, i, (hR hpass).1, (hR hpass).2, hk⟩

theorem leadsTo_of_sameText {same : Char → Char → Bool} {word : List Char} {c d : Cursor}
    (h : sameText same word c = some d) : c.LeadsTo d := by
  induction word generalizing c with
  | nil =>
    obtain rfl := Option.some.inj h
    exact .refl _
  | cons a rest ih =>
    unfold sameText at h
    split at h
    · next b e he =>
      split at h
      · exact (Cursor.LeadsTo.of_next? he).trans (ih h)
      · simp at h
    · simp at h

theorem leadsTo_of_passesChar {p : Char → Bool} {c d : Cursor} {g h : Captures}
    (hpass : passesChar p c g d h) : c.LeadsTo d ∧ c.pos + 1 ≤ d.pos := by
  obtain ⟨a, hnext, -, -⟩ := hpass
  exact ⟨.of_next? hnext, Nat.le_of_eq (Cursor.pos_eq_of_next? hnext).symm⟩

theorem oneChar_takes (p : Char → Bool) : Turn.Takes 1 (oneChar p) :=
  (oneChar_follows p).takes leadsTo_of_passesChar

/-- Passages one after the other take what each of them takes at least. -/
theorem leadsTo_of_turns {R : Passage} {u : Nat}
    (hR : ∀ {c g d h}, R c g d h → c.LeadsTo d ∧ c.pos + u ≤ d.pos) {n : Nat} {c d : Cursor}
    {g h : Captures} (hpass : Turns R n c g d h) : c.LeadsTo d ∧ c.pos + n * u ≤ d.pos := by
  induction hpass with
  | none => exact ⟨.refl _, by omega⟩
  | more first _ ih =>
    obtain ⟨hlead, hpos⟩ := hR first
    obtain ⟨hlead', hpos'⟩ := ih
    exact ⟨hlead.trans hlead', by rw [Nat.succ_mul]; omega⟩

/-- How many characters every match of an expression has at least, whatever its groups. -/
def Expr.least (e : Expr) : Nat :=
  (e.width fun _ => ⟨0, some 0⟩).least

/-- **Matching moves on:** a passage leads to a later place, and takes the least width of its
expression or more. -/
theorem Expr.leadsTo_of_passes {e : Expr} {f : Flags} {c d : Cursor} {g h : Captures}
    (hpass : e.Passes f c g d h) : c.LeadsTo d ∧ c.pos + e.least ≤ d.pos := by
  have hstays : ∀ {e : Expr} {c d : Cursor}, d = c → e.least = 0 →
      c.LeadsTo d ∧ c.pos + e.least ≤ d.pos := by
    rintro e c - rfl hleast
    exact ⟨.refl _, by omega⟩
  induction e generalizing f c g d h with
  | empty => exact hstays hpass.1 rfl
  | char a => exact leadsTo_of_passesChar hpass
  | any => exact leadsTo_of_passesChar hpass
  | oneOf negated items => exact leadsTo_of_passesChar hpass
  | anchor a => exact hstays hpass.2.1 rfl
  | seq a b iha ihb =>
    obtain ⟨e, i, hfirst, hthen⟩ := hpass
    obtain ⟨hlead, hpos⟩ := iha hfirst
    obtain ⟨hlead', hpos'⟩ := ihb hthen
    refine ⟨hlead.trans hlead', ?_⟩
    change c.pos + (a.least + b.least) ≤ d.pos
    omega
  | alt a b iha ihb =>
    change c.LeadsTo d ∧ c.pos + min a.least b.least ≤ d.pos
    rcases hpass with hpass | hpass
    · exact ⟨(iha hpass).1, by have := (iha hpass).2; omega⟩
    · exact ⟨(ihb hpass).1, by have := (ihb hpass).2; omega⟩
  | group n a ih =>
    obtain ⟨i, hpass, -⟩ := hpass
    exact ih hpass
  | «scoped» on off a ih => exact ih (f := (f.union on).diff off) hpass
  | turns least most eagerness a ih =>
    obtain ⟨n, hn, hpass⟩ := hpass
    obtain ⟨hlead, hpos⟩ := leadsTo_of_turns (u := a.least) ih hpass
    refine ⟨hlead, ?_⟩
    have hle := Nat.mul_le_mul_right a.least hn
    change c.pos + a.least * least ≤ d.pos
    rw [Nat.mul_comm]
    omega
  | ahead negated a _ => exact hstays hpass.1 rfl
  | behind width negated a _ => exact hstays hpass.1 rfl
  | atomic a ih => exact ih (f := f) hpass
  | backref n =>
    obtain ⟨-, s, same, -, hsame⟩ := hpass
    have hlead := leadsTo_of_sameText hsame
    exact ⟨hlead, hlead.pos_le⟩
  | ifGroup n yes no ihy ihn =>
    change c.LeadsTo d ∧ c.pos + min yes.least no.least ≤ d.pos
    unfold Expr.Passes at hpass
    split at hpass
    · exact ⟨(ihy hpass).1, by have := (ihy hpass).2; omega⟩
    · exact ⟨(ihn hpass).1, by have := (ihn hpass).2; omega⟩

/-- An expression takes at least its least width, and asks its continuation only about places that
the first place leads to. -/
theorem Expr.run_takes_least (e : Expr) (f : Flags) : Turn.Takes e.least (e.run f) :=
  (e.run_follows f).takes leadsTo_of_passes

theorem Expr.run_takes (e : Expr) (f : Flags) : Turn.Takes 0 (e.run f) :=
  (e.run_takes_least f).mono (Nat.zero_le _)

end Pattern

/-- A match ends where it begins or behind that place. -/
theorem Pattern.leadsTo_of_matchAt? {p : Pattern} {c : Text.Cursor} {m : Pattern.Match}
    (h : p.matchAt? c = some m) : c.LeadsTo m.stop :=
  (Pattern.Expr.leadsTo_of_passes (Pattern.passes_of_matchAt? h)).1

end DocHighlighter
