/-
# The passages of an expression

`Expr.run` looks for the first way to match an expression before a continuation.  Which way
that is depends on an order of preference and on what comes later; but each is a passage
of the expression, and those are said here directly (`Expr.Passes`): from which place with
which groups an expression can lead to which other place, and with which groups then.

| expression | its passages |
|---|---|
| one of two | those of either |
| a body again and again | as many of the body's, one after the other, as there must be, or more (`Turns`) |
| a look to either side | none but the groups of its body's |

So a fact about all matches is a fact about all passages, by induction on the expression
(`passes_of_matchAt?`).
-/

import DocHighlighter.Pattern.Match

namespace DocHighlighter
namespace Pattern

open Text (Cursor)

/-- From a place and the groups so far to a later place and the groups then. -/
abbrev Passage := Cursor → Captures → Cursor → Captures → Prop

/-- So many passages one after the other. -/
inductive Turns (R : Passage) : Nat → Passage
  | none (c : Cursor) (g : Captures) : Turns R 0 c g c g
  | more {n : Nat} {c d e : Cursor} {g h i : Captures} (first : R c g d h)
      (rest : Turns R n d h e i) : Turns R (n + 1) c g e i

/-- The passage over one character of a class. -/
def passesChar (p : Char → Bool) : Passage := fun c g d h =>
  ∃ a, c.next? = some (a, d) ∧ p a = true ∧ h = g

/-- Where an expression can lead, whichever way is preferred.  How many turns of a body there may be
at most is left out, and so is what must not lie at a place. -/
def Expr.Passes (f : Flags) : Expr → Passage
  | .empty, c, g, d, h => d = c ∧ h = g
  | .char a, c, g, d, h => passesChar (f.same a) c g d h
  | .any, c, g, d, h => passesChar (fun a => f.dotAll || a != '\n') c g d h
  | .oneOf negated items, c, g, d, h =>
    passesChar (fun a => (items.any fun i => i.holds f a) != negated) c g d h
  | .anchor a, c, g, d, h => a.holds f c = true ∧ d = c ∧ h = g
  | .seq a b, c, g, d, h => ∃ e i, a.Passes f c g e i ∧ b.Passes f e i d h
  | .alt a b, c, g, d, h => a.Passes f c g d h ∨ b.Passes f c g d h
  | .group n a, c, g, d, h => ∃ i, a.Passes f c g d i ∧ h = (n, ⟨c, d⟩) :: i
  | .scoped on off a, c, g, d, h => a.Passes ((f.union on).diff off) c g d h
  | .turns least _ _ a, c, g, d, h =>
    ∃ n, least ≤ n ∧ Turns (fun c g d h => a.Passes f c g d h) n c g d h
  | .ahead negated a, c, g, d, h =>
    d = c ∧ if negated then h = g else ∃ e, a.Passes f c g e h
  | .behind width negated a, c, g, d, h =>
    d = c ∧ if negated then h = g else ∃ b e, c.back? width = some b ∧ a.Passes f b g e h
  | .atomic a, c, g, d, h => a.Passes f c g d h
  | .backref n, c, g, d, h => h = g ∧ ∃ s same, g.get? n = some s ∧ sameText same s.text c = some d
  | .ifGroup n yes no, c, g, d, h =>
    if (g.get? n).isSome then yes.Passes f c g d h else no.Passes f c g d h

/-- Whatever a way to match finds before a continuation, it is what the continuation finds after
one of the passages. -/
def Turn.Follows (R : Passage) (turn : Turn) : Prop :=
  ∀ c g k m, turn c g k = some m → ∃ d h, R c g d h ∧ k d h = some m

variable {R R' : Passage} {turn turn' : Turn}

theorem Turn.Follows.imp (h : turn.Follows R) (himp : ∀ {c g d i}, R c g d i → R' c g d i) :
    turn.Follows R' := by
  intro c g k m hm
  obtain ⟨d, i, hR, hk⟩ := h c g k m hm
  exact ⟨d, i, himp hR, hk⟩

/-- What a way to match finds when nothing is to follow is the end of one of the passages. -/
theorem Turn.Follows.passes (h : turn.Follows R) {c : Cursor} {g : Captures} {m : Match}
    (hm : turn c g accept = some m) : R c g m.stop m.captures := by
  obtain ⟨d, i, hR, hstop⟩ := h c g accept m hm
  obtain rfl := Option.some.inj hstop
  exact hR

/-- One way to match after another. -/
theorem Turn.Follows.seq (h : turn.Follows R) (h' : turn'.Follows R') :
    Turn.Follows (fun c g d i => ∃ e j, R c g e j ∧ R' e j d i)
      fun c g k => turn c g fun d g' => turn' d g' k := by
  intro c g k m hm
  obtain ⟨e, j, hR, hk⟩ := h c g _ m hm
  obtain ⟨d, i, hR', hk'⟩ := h' e j k m hk
  exact ⟨d, i, ⟨e, j, hR, hR'⟩, hk'⟩

theorem oneChar_follows (p : Char → Bool) : Turn.Follows (passesChar p) (oneChar p) := by
  intro c g k m hm
  unfold oneChar at hm
  split at hm
  · next a d hnext =>
    split at hm
    · next ha => exact ⟨d, g, ⟨a, hnext, ha, rfl⟩, hm⟩
    · cases hm
  · cases hm

/-! ## Repetition -/

theorem Turns.append {n n' : Nat} {c d e : Cursor} {g h i : Captures} (hd : Turns R n c g d h)
    (he : Turns R n' d h e i) : Turns R (n + n') c g e i := by
  induction hd with
  | none => rwa [Nat.zero_add]
  | more first _ ih =>
    rw [Nat.add_right_comm]
    exact .more first (ih he)

/-- Some passages one after the other. -/
def SomeTurns (R : Passage) : Passage := fun c g d h =>
  ∃ n, Turns R n c g d h

theorem SomeTurns.none (c : Cursor) (g : Captures) : SomeTurns R c g c g :=
  ⟨0, .none c g⟩

theorem SomeTurns.more {c d e : Cursor} {g h i : Captures} (first : R c g d h)
    (rest : SomeTurns R d h e i) : SomeTurns R c g e i := by
  obtain ⟨n, hn⟩ := rest
  exact ⟨n + 1, .more first hn⟩

section Repetition

variable (hturn : turn.Follows R)

include hturn

theorem requiredTurns_follows (n : Nat) :
    Turn.Follows (Turns R n) fun c g k => requiredTurns turn k n c g := by
  induction n with
  | zero => exact fun c g k m hm => ⟨c, g, .none c g, hm⟩
  | succ n ih =>
    refine (hturn.seq ih).imp ?_
    rintro c g d i ⟨e, j, first, rest⟩
    exact .more first rest

theorem greedyTurns_follows (fuel : Nat) (left last : Option Nat) :
    Turn.Follows (SomeTurns R) fun c g k => greedyTurns turn k fuel left last c g := by
  induction fuel generalizing left last with
  | zero => exact fun c g k m hm => ⟨c, g, .none c g, hm⟩
  | succ fuel ih =>
    intro c g k m hm
    simp only [greedyTurns] at hm
    split at hm
    · split at hm
      · next m' hmore =>
        obtain rfl := Option.some.inj hm
        obtain ⟨d, h, first, hk⟩ := hturn c g _ _ hmore
        obtain ⟨e, i, rest, hk'⟩ := ih _ _ d h k _ hk
        exact ⟨e, i, .more first rest, hk'⟩
      · exact ⟨c, g, .none c g, hm⟩
    · exact ⟨c, g, .none c g, hm⟩

theorem lazyTurns_follows (fuel : Nat) (left last : Option Nat) :
    Turn.Follows (SomeTurns R) fun c g k => lazyTurns turn k fuel left last c g := by
  induction fuel generalizing left last with
  | zero => exact fun c g k m hm => ⟨c, g, .none c g, hm⟩
  | succ fuel ih =>
    intro c g k m hm
    simp only [lazyTurns] at hm
    split at hm
    · next m' hnow => exact ⟨c, g, .none c g, hnow.trans hm⟩
    · split at hm
      · obtain ⟨d, h, first, hk⟩ := hturn c g _ _ hm
        obtain ⟨e, i, rest, hk'⟩ := ih _ _ d h k _ hk
        exact ⟨e, i, .more first rest, hk'⟩
      · cases hm

theorem turns_of_heldTurns (n : Nat) {c : Cursor} {g : Captures} {m : Match}
    (hm : heldTurns turn n c g = some m) : Turns R n c g m.stop m.captures := by
  induction n generalizing c g with
  | zero =>
    obtain rfl := Option.some.inj hm
    exact .none c g
  | succ n ih =>
    unfold heldTurns at hm
    split at hm
    · next m' hfirst =>
      obtain ⟨d, h, first, hk⟩ := hturn c g accept m' hfirst
      obtain rfl := Option.some.inj hk
      exact .more first (ih hm)
    · cases hm

theorem someTurns_of_allTurns (fuel : Nat) (left last : Option Nat) (c : Cursor) (g : Captures) :
    SomeTurns R c g (allTurns turn fuel left last c g).stop
      (allTurns turn fuel left last c g).captures := by
  induction fuel generalizing left last c g with
  | zero => exact .none c g
  | succ fuel ih =>
    unfold allTurns
    split
    · split
      · next m' hfirst =>
        obtain ⟨d, h, first, hk⟩ := hturn c g accept m' hfirst
        obtain rfl := Option.some.inj hk
        exact .more first (ih ..)
      · exact .none c g
    · exact .none c g

/-- A repeated body is passed as often as it must be, or more often. -/
theorem repeated_follows (least : Nat) (most : Option Nat) (eagerness : Eagerness) :
    Turn.Follows (fun c g d h => ∃ n, least ≤ n ∧ Turns R n c g d h)
      (repeated least most eagerness turn) := by
  have hboth : ∀ {c g d h}, (∃ e i, Turns R least c g e i ∧ SomeTurns R e i d h) →
      ∃ n, least ≤ n ∧ Turns R n c g d h := by
    rintro c g d h ⟨e, i, must, n, may⟩
    exact ⟨least + n, Nat.le_add_right least n, must.append may⟩
  intro c g k m hm
  have hmust := requiredTurns_follows hturn least
  cases eagerness with
  | greedy => exact ((hmust.seq (greedyTurns_follows hturn _ _ _)).imp hboth) c g k m hm
  | lazy => exact ((hmust.seq (lazyTurns_follows hturn _ _ _)).imp hboth) c g k m hm
  | possessive =>
    simp only [repeated] at hm
    split at hm
    · next m' hheld =>
      have must := turns_of_heldTurns hturn least hheld
      have may := someTurns_of_allTurns hturn (c.remaining + 2) (most.map (· - least)) none m'.stop
        m'.captures
      exact ⟨_, _, hboth ⟨_, _, must, may⟩, hm⟩
    · cases hm

end Repetition

/-! ## Every match is a passage -/

/-- What a look to either side finds leaves the place as it is. -/
theorem eq_some_of_looked {negated : Bool} {found : Option Match} {c : Cursor} {g : Captures}
    {k : Continuation} {m : Match} (hm : looked negated found c g k = some m) :
    (negated = true ∧ k c g = some m) ∨
      ∃ m', negated = false ∧ found = some m' ∧ k c m'.captures = some m := by
  cases found with
  | none =>
    cases negated with
    | false => cases hm
    | true => exact .inl ⟨rfl, hm⟩
  | some m' =>
    cases negated with
    | false => exact .inr ⟨m', rfl, rfl, hm⟩
    | true => cases hm

/-- **Whatever an expression matches is one of its passages.** -/
theorem Expr.run_follows (e : Expr) (f : Flags) : Turn.Follows (e.Passes f) (e.run f) := by
  induction e generalizing f with
  | empty => exact fun c g k m hm => ⟨c, g, ⟨rfl, rfl⟩, hm⟩
  | char a => exact oneChar_follows _
  | any => exact oneChar_follows _
  | oneOf negated items => exact oneChar_follows _
  | anchor a =>
    intro c g k m hm
    simp only [Expr.run] at hm
    split at hm
    · next ha => exact ⟨c, g, ⟨ha, rfl, rfl⟩, hm⟩
    · cases hm
  | seq a b iha ihb => exact (iha f).seq (ihb f)
  | alt a b iha ihb =>
    intro c g k m hm
    simp only [Expr.run] at hm
    split at hm
    · next m' hfirst =>
      obtain ⟨d, h, hpass, hk⟩ := iha f c g k m (hfirst.trans hm)
      exact ⟨d, h, .inl hpass, hk⟩
    · obtain ⟨d, h, hpass, hk⟩ := ihb f c g k m hm
      exact ⟨d, h, .inr hpass, hk⟩
  | group n a ih =>
    intro c g k m hm
    obtain ⟨d, h, hpass, hk⟩ := ih f c g _ m hm
    exact ⟨d, _, ⟨h, hpass, rfl⟩, hk⟩
  | «scoped» on off a ih => exact fun c g k m hm => ih _ c g k m hm
  | turns least most eagerness a ih => exact repeated_follows (ih f) least most eagerness
  | ahead negated a ih =>
    intro c g k m hm
    rcases eq_some_of_looked hm with ⟨rfl, hk⟩ | ⟨m', rfl, hfound, hk⟩
    · exact ⟨c, g, ⟨rfl, rfl⟩, hk⟩
    · exact ⟨c, m'.captures, ⟨rfl, m'.stop, (ih f).passes hfound⟩, hk⟩
  | behind width negated a ih =>
    intro c g k m hm
    rcases eq_some_of_looked hm with ⟨rfl, hk⟩ | ⟨m', rfl, hfound, hk⟩
    · exact ⟨c, g, ⟨rfl, rfl⟩, hk⟩
    · obtain ⟨b, hb, hfound⟩ := Option.bind_eq_some_iff.1 hfound
      exact ⟨c, m'.captures, ⟨rfl, b, m'.stop, hb, (ih f).passes hfound⟩, hk⟩
  | atomic a ih =>
    intro c g k m hm
    simp only [Expr.run] at hm
    split at hm
    · next m' hfirst => exact ⟨m'.stop, m'.captures, (ih f).passes hfirst, hm⟩
    · cases hm
  | backref n =>
    intro c g k m hm
    simp only [Expr.run] at hm
    split at hm
    · next s hs =>
      split at hm
      · next d hd => exact ⟨d, g, ⟨rfl, s, _, hs, hd⟩, hm⟩
      · cases hm
    · cases hm
  | ifGroup n yes no ihy ihn =>
    intro c g k m hm
    simp only [Expr.run] at hm
    split at hm
    · next hset =>
      obtain ⟨d, h, hpass, hk⟩ := ihy f c g k m hm
      exact ⟨d, h, by rwa [Expr.Passes, if_pos hset], hk⟩
    · next hset =>
      obtain ⟨d, h, hpass, hk⟩ := ihn f c g k m hm
      exact ⟨d, h, by rwa [Expr.Passes, if_neg hset], hk⟩

end Pattern

/-- A match is a passage of the pattern's expression. -/
theorem Pattern.passes_of_matchAt? {p : Pattern} {c : Text.Cursor} {m : Pattern.Match}
    (h : p.matchAt? c = some m) : p.expr.Passes p.flags c [] m.stop m.captures :=
  (p.expr.run_follows p.flags).passes h

end DocHighlighter
