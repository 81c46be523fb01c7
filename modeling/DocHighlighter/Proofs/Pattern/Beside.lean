/-
# What lies beside a group

A group of a match can be scanned on its own, and that scan has less to do than the one it
is part of if the match is longer than the group.  `Expr.beside` finds how many characters
of every match lie outside of the group at least:

| expression | beside the group |
|---|---|
| the group itself | none |
| one after the other | what lies beside it in the one, and all that the other takes |
| one of two | the smaller of both numbers |
| a body again and again | what lies beside it in one turn |
| a look to either side | unknown, if the group is in there |

So its text is shorter than the text to come (`length_text_lt_of_beside`).
-/

import DocHighlighter.Proofs.Pattern.Advance

namespace DocHighlighter
namespace Pattern

open Text (Cursor)

/-- Whether a group stands in an expression. -/
def Expr.hasGroup (group : Nat) : Expr → Bool
  | .empty | .char _ | .any | .oneOf _ _ | .anchor _ | .backref _ => false
  | .seq a b | .alt a b | .ifGroup _ a b => a.hasGroup group || b.hasGroup group
  | .group n a => n == group || a.hasGroup group
  | .scoped _ _ a | .turns _ _ _ a | .ahead _ a | .behind _ _ a | .atomic a => a.hasGroup group

/-- How many characters of a match lie outside of a group at least, where that can be said. -/
def Expr.beside (group : Nat) : Expr → Option Nat
  | .empty | .char _ | .any | .oneOf _ _ | .anchor _ | .backref _ => some 0
  | .seq a b =>
    match a.beside group, b.beside group with
    | some n, some n' =>
      if !b.hasGroup group then some (n + b.least)
      else if !a.hasGroup group then some (a.least + n')
      else some (min (n + b.least) (a.least + n'))
    | _, _ => none
  | .alt a b | .ifGroup _ a b =>
    match a.beside group, b.beside group with
    | some n, some n' => some (min n n')
    | _, _ => none
  | .group n a => if n == group then some 0 else a.beside group
  | .scoped _ _ a | .turns _ _ _ a | .atomic a => a.beside group
  | .ahead _ a | .behind _ _ a => if a.hasGroup group then none else some 0

/-- A passage leaves the group as it was, or ends with a text of it that leaves so many
characters. -/
def Leaves (group n : Nat) : Passage := fun c g d h =>
  h.get? group = g.get? group ∨
    ∃ s, h.get? group = some s ∧ s.start.pos ≤ s.stop.pos ∧
      s.stop.pos + n + c.pos ≤ d.pos + s.start.pos

variable {group n : Nat} {f : Flags} {e : Expr} {c d : Cursor} {g h : Captures}

theorem Captures.get?_cons_of_ne {n : Nat} {s : Span} (hne : n ≠ group) :
    Captures.get? ((n, s) :: g) group = g.get? group := by
  rw [get?, get?, List.find?_cons_of_neg (by simpa using hne)]

theorem Captures.get?_cons_self {s : Span} : Captures.get? ((group, s) :: g) group = some s := by
  rw [get?, List.find?_cons_of_pos (by simp)]
  rfl

theorem Turns.kept {R : Passage} (hR : ∀ {c g d h}, R c g d h → h.get? group = g.get? group)
    (hpass : Turns R n c g d h) : h.get? group = g.get? group := by
  induction hpass with
  | none => rfl
  | more first _ ih => exact ih.trans (hR first)

/-- Where a group does not stand, it is kept. -/
theorem Expr.kept_of_passes (hgroup : e.hasGroup group = false) (hpass : e.Passes f c g d h) :
    h.get? group = g.get? group := by
  induction e generalizing f c g d h with
  | empty => rw [hpass.2]
  | char a | any | oneOf negated items =>
    obtain ⟨-, -, -, rfl⟩ := hpass
    rfl
  | anchor a => rw [hpass.2.2]
  | seq a b iha ihb =>
    obtain ⟨hga, hgb⟩ := Bool.or_eq_false_iff.1 hgroup
    obtain ⟨e, i, hfirst, hthen⟩ := hpass
    exact (ihb hgb hthen).trans (iha hga hfirst)
  | alt a b iha ihb =>
    obtain ⟨hga, hgb⟩ := Bool.or_eq_false_iff.1 hgroup
    rcases hpass with hpass | hpass
    · exact iha hga hpass
    · exact ihb hgb hpass
  | group n a ih =>
    obtain ⟨hn, hga⟩ := Bool.or_eq_false_iff.1 hgroup
    obtain ⟨i, hpass, rfl⟩ := hpass
    exact (Captures.get?_cons_of_ne (by simpa using hn)).trans (ih hga hpass)
  | «scoped» on off a ih => exact ih (f := (f.union on).diff off) hgroup hpass
  | turns least most eagerness a ih =>
    obtain ⟨n, -, hpass⟩ := hpass
    exact hpass.kept (ih hgroup)
  | ahead negated a ih =>
    obtain ⟨-, hpass⟩ := hpass
    split at hpass
    · rw [hpass]
    · obtain ⟨e, hpass⟩ := hpass
      exact ih hgroup hpass
  | behind width negated a ih =>
    obtain ⟨-, hpass⟩ := hpass
    split at hpass
    · rw [hpass]
    · obtain ⟨b, e, -, hpass⟩ := hpass
      exact ih hgroup hpass
  | atomic a ih => exact ih (f := f) hgroup hpass
  | backref n => rw [hpass.1]
  | ifGroup n yes no ihy ihn =>
    obtain ⟨hgy, hgn⟩ := Bool.or_eq_false_iff.1 hgroup
    unfold Expr.Passes at hpass
    split at hpass
    · exact ihy hgy hpass
    · exact ihn hgn hpass

namespace Leaves

variable {n' : Nat} {e : Cursor} {i : Captures}

theorem kept (heq : h.get? group = g.get? group) : Leaves group n c g d h :=
  .inl heq

theorem mono (hleaves : Leaves group n c g d h) (hle : n' ≤ n) : Leaves group n' c g d h := by
  rcases hleaves with hkept | ⟨s, hs, hstart, hstop⟩
  · exact .inl hkept
  · exact .inr ⟨s, hs, hstart, by omega⟩

/-- What is passed before the text of a group lies beside it. -/
theorem after (hleaves : Leaves group n d h e i) (hkept : h.get? group = g.get? group)
    (hpos : c.pos + n' ≤ d.pos) : Leaves group (n' + n) c g e i := by
  rcases hleaves with hkept' | ⟨s, hs, hstart, hstop⟩
  · exact .inl (hkept'.trans hkept)
  · exact .inr ⟨s, hs, hstart, by omega⟩

/-- What is passed after the text of a group lies beside it. -/
theorem before (hleaves : Leaves group n c g d h) (hkept : i.get? group = h.get? group)
    (hpos : d.pos + n' ≤ e.pos) : Leaves group (n + n') c g e i := by
  rcases hleaves with hkept' | ⟨s, hs, hstart, hstop⟩
  · exact .inl (hkept.trans hkept')
  · exact .inr ⟨s, hkept.trans hs, hstart, by omega⟩

/-- Of two passages the one that ends with a text of the group decides. -/
theorem both {m m' : Nat} (hfirst : Leaves group n c g d h) (hthen : Leaves group n' d h e i)
    (hpos : c.pos + m ≤ d.pos) (hpos' : d.pos + m' ≤ e.pos) :
    Leaves group (min (n + m') (m + n')) c g e i := by
  rcases hthen with hkept | ⟨s, hs, hstart, hstop⟩
  · exact (hfirst.before hkept hpos').mono (Nat.min_le_left ..)
  · exact .inr ⟨s, hs, hstart, by omega⟩

theorem turns {R : Passage} (hR : ∀ {c g d h}, R c g d h → Leaves group n c g d h ∧ c.pos ≤ d.pos)
    {k : Nat} (hpass : Turns R k c g d h) : Leaves group n c g d h ∧ c.pos ≤ d.pos := by
  induction hpass with
  | none => exact ⟨.inl rfl, Nat.le_refl _⟩
  | more first _ ih =>
    obtain ⟨hfirst, hpos⟩ := hR first
    obtain ⟨hthen, hpos'⟩ := ih
    have hboth := hfirst.both hthen (show _ + 0 ≤ _ from hpos) (show _ + 0 ≤ _ from hpos')
    exact ⟨hboth.mono (by omega), Nat.le_trans hpos hpos'⟩

end Leaves

/-- **What lies beside a group:** a passage that ends with a text of it leaves as many characters. -/
theorem Expr.leaves_of_passes (hbeside : e.beside group = some n) (hpass : e.Passes f c g d h) :
    Leaves group n c g d h := by
  induction e generalizing f c g d h n with
  | empty | char a | any | oneOf negated items | anchor a | backref m =>
    exact .kept (kept_of_passes rfl hpass)
  | seq a b iha ihb =>
    obtain ⟨e, i, hfirst, hthen⟩ := hpass
    have hpos := (leadsTo_of_passes hfirst).2
    have hpos' := (leadsTo_of_passes hthen).2
    unfold beside at hbeside
    split at hbeside
    · next m m' hm hm' =>
      split_ifs at hbeside with hb ha <;> obtain rfl := Option.some.inj hbeside
      · exact (iha hm hfirst).before (kept_of_passes (by simpa using hb) hthen) hpos'
      · exact (ihb hm' hthen).after (kept_of_passes (by simpa using ha) hfirst) hpos
      · exact (iha hm hfirst).both (ihb hm' hthen) hpos hpos'
    · cases hbeside
  | alt a b iha ihb =>
    unfold beside at hbeside
    split at hbeside
    · next m m' hm hm' =>
      obtain rfl := Option.some.inj hbeside
      rcases hpass with hpass | hpass
      · exact (iha hm hpass).mono (Nat.min_le_left ..)
      · exact (ihb hm' hpass).mono (Nat.min_le_right ..)
    · cases hbeside
  | group m a ih =>
    obtain ⟨i, hpass, rfl⟩ := hpass
    unfold beside at hbeside
    split_ifs at hbeside with hm
    · obtain rfl := Option.some.inj hbeside
      obtain rfl : m = group := by simpa using hm
      exact .inr ⟨_, Captures.get?_cons_self, (leadsTo_of_passes hpass).1.pos_le, Nat.le_refl _⟩
    · have hkept : Captures.get? ((m, ⟨c, d⟩) :: i) group = i.get? group :=
        Captures.get?_cons_of_ne (by simpa using hm)
      exact (ih hbeside hpass).before hkept (Nat.le_of_eq (Nat.add_zero _))
  | «scoped» on off a ih => exact ih (f := (f.union on).diff off) hbeside hpass
  | turns least most eagerness a ih =>
    obtain ⟨k, -, hpass⟩ := hpass
    exact (Leaves.turns (fun hpass => ⟨ih hbeside hpass, (leadsTo_of_passes hpass).1.pos_le⟩) hpass).1
  | ahead negated a ih =>
    unfold beside at hbeside
    split_ifs at hbeside with ha
    exact .kept (kept_of_passes (by simpa [hasGroup] using ha) hpass)
  | behind width negated a ih =>
    unfold beside at hbeside
    split_ifs at hbeside with ha
    exact .kept (kept_of_passes (by simpa [hasGroup] using ha) hpass)
  | atomic a ih => exact ih (f := f) hbeside hpass
  | ifGroup m yes no ihy ihn =>
    unfold beside at hbeside
    split at hbeside
    · next k k' hk hk' =>
      obtain rfl := Option.some.inj hbeside
      unfold Expr.Passes at hpass
      split at hpass
      · exact (ihy hk hpass).mono (Nat.min_le_left ..)
      · exact (ihn hk' hpass).mono (Nat.min_le_right ..)
    · cases hbeside

end Pattern

/-- **The text of a group is shorter than the text to come,** if something lies beside the
group in every match. -/
theorem Pattern.length_text_lt_of_beside {p : Pattern} {group n : Nat} {c : Text.Cursor}
    {m : Pattern.Match} {s : Pattern.Span} (hbeside : p.expr.beside group = some (n + 1))
    (hm : p.matchAt? c = some m) (hs : m.captures.get? group = some s) :
    s.text.length < c.remaining := by
  have hpass := passes_of_matchAt? hm
  have hremaining := (leadsTo_of_matchAt? hm).remaining_eq
  have htext : s.text.length ≤ s.stop.pos - s.start.pos := by
    rw [Pattern.Span.text, Text.Cursor.upTo, List.length_take]
    exact Nat.min_le_left ..
  rcases Pattern.Expr.leaves_of_passes hbeside hpass with hkept | ⟨s', hs', hstart, hstop⟩
  · rw [hs] at hkept
    cases hkept
  · obtain rfl := Option.some.inj (hs.symm.trans hs')
    omega

end DocHighlighter
