/-
# What simple sequences match

Most written patterns are a sign, some blanks, and a run of one class.  A sign matches in one way at
most; blanks could be given back one by one, but what comes behind them here never begins with one.
So each of these patterns leads from a place to one other place or to none, and which one is said
here as a function (`Turn.GoesTo`), without continuations and second thoughts.

| pattern | where its match ends |
|---|---|
| a sign, a text | behind it (`Cursor.step?`, `Cursor.over?`) |
| a sign, blanks, a sign | behind them (`goesTo_blanksThen`) |
| a sign, blanks, a run | behind the run (`stop_signThenRun`, `stop_signThenMaybeRun`) |
| a look ahead | where it begins (`stop_ahead`) |
-/

import DocHighlighter.Proofs.Pattern.Runs

namespace DocHighlighter

namespace Text.Cursor

/-- The place behind the next character, if that is of a class. -/
def step? (p : Char → Bool) (c : Cursor) : Option Cursor :=
  (c.next?.filter fun next => p next.1).map Prod.snd

/-- The place behind the characters of a class that come next. -/
def skip (p : Char → Bool) (c : Cursor) : Cursor :=
  c.past (c.after.takeWhile p).length

/-- The place behind a text, if it comes next. -/
def over? (w : List Char) (c : Cursor) : Option Cursor :=
  if w <+: c.after then some (c.past w.length) else none

variable {p : Char → Bool} {c d : Cursor} {a : Char}

theorem step?_of_end (h : c.next? = none) : c.step? p = none := by
  rw [step?, h]
  rfl

theorem step?_of_next? (h : c.next? = some (a, d)) : c.step? p = if p a then some d else none := by
  rw [step?, h]
  cases hp : p a <;> simp [Option.filter_some, hp]

theorem step?_eq_some_iff : c.step? p = some d ↔ ∃ a, c.next? = some (a, d) ∧ p a = true := by
  cases hc : c.next? with
  | none => simp [step?_of_end hc]
  | some next =>
    obtain ⟨a, e⟩ := next
    rw [step?_of_next? hc]
    cases hp : p a <;> simp [hp]

theorem step?_eq_none_iff : c.step? p = none ↔ ∀ a d, c.next? = some (a, d) → p a = false := by
  cases hc : c.next? with
  | none => simp [step?_of_end hc]
  | some next =>
    obtain ⟨a, e⟩ := next
    rw [step?_of_next? hc]
    cases hp : p a <;> simp [hp]

theorem skip_of_step?_none (h : c.step? p = none) : c.skip p = c := by
  cases hc : c.next? with
  | none =>
    rw [skip, after_eq_nil_of_next? hc]
    rfl
  | some next =>
    obtain ⟨a, d⟩ := next
    rw [skip, after_eq_of_next? hc,
      List.takeWhile_cons_of_neg (by simpa using step?_eq_none_iff.1 h a d hc)]
    rfl

theorem skip_of_next? (h : c.next? = some (a, d)) (ha : p a = true) : c.skip p = d.skip p := by
  rw [skip, skip, after_eq_of_next? h, List.takeWhile_cons_of_pos ha, List.length_cons, past_succ h]

theorem skip_of_step? (h : c.step? p = some d) : c.skip p = d.skip p := by
  obtain ⟨a, hnext, ha⟩ := step?_eq_some_iff.1 h
  exact skip_of_next? hnext ha

theorem runEnd?_eq (p : Char → Bool) (c : Cursor) : c.runEnd? p = (c.step? p).map (skip p) := by
  cases hc : c.next? with
  | none => rw [runEnd?_of_next?_none hc, step?_of_end hc, Option.map_none]
  | some next =>
    obtain ⟨a, d⟩ := next
    rw [step?_of_next? hc]
    cases hp : p a with
    | true => exact runEnd?_of_next? hc hp
    | false => exact runEnd?_of_not hc hp

/-- A run begins where a character of its class comes next. -/
theorem runEnd?_eq_ite (p : Char → Bool) (c : Cursor) :
    c.runEnd? p = if c.after.head?.any p then some (c.skip p) else none := by
  rw [runEnd?_eq]
  cases hc : c.next? with
  | none =>
    rw [step?_of_end hc, after_eq_nil_of_next? hc]
    rfl
  | some next =>
    rw [step?_of_next? hc, after_eq_of_next? hc, List.head?_cons, Option.any_some]
    cases hp : p next.1 with
    | true =>
      rw [if_pos rfl, if_pos rfl, Option.map_some, skip_of_next? (a := next.1) (d := next.2) hc hp]
    | false => rfl

/-- A place leads past the characters that come next. -/
theorem leadsTo_past (n : Nat) (c : Cursor) : c.LeadsTo (c.past n) := by
  induction n generalizing c with
  | zero => exact .refl c
  | succ n ih =>
    cases hc : c.next? with
    | none =>
      simp only [past, hc]
      exact .refl c
    | some next =>
      rw [past_succ hc]
      exact (LeadsTo.of_next? hc).trans (ih next.2)

theorem leadsTo_skip (p : Char → Bool) (c : Cursor) : c.LeadsTo (c.skip p) :=
  leadsTo_past _ c

theorem after_past (n : Nat) (c : Cursor) : (c.past n).after = c.after.drop n := by
  induction n generalizing c with
  | zero => rfl
  | succ n ih =>
    cases hc : c.next? with
    | none =>
      have hafter := after_eq_nil_of_next? hc
      simp only [past, hc]
      rw [hafter, List.drop_nil]
    | some next => rw [past_succ hc, ih, after_eq_of_next? hc, List.drop_succ_cons]

theorem after_skip (p : Char → Bool) (c : Cursor) : (c.skip p).after = c.after.dropWhile p :=
  calc (c.skip p).after
    _ = c.after.drop (c.after.takeWhile p).length := after_past _ c
    _ = (c.after.takeWhile p ++ c.after.dropWhile p).drop (c.after.takeWhile p).length := by
      rw [List.takeWhile_append_dropWhile]
    _ = c.after.dropWhile p := List.drop_left

theorem upTo_past (n : Nat) (c : Cursor) : c.upTo (c.past n) = c.after.take n := by
  have hafter := (leadsTo_past n c).after_eq
  rw [after_past] at hafter
  exact List.append_cancel_right (hafter.symm.trans (List.take_append_drop n c.after).symm)

theorem upTo_skip (p : Char → Bool) (c : Cursor) : c.upTo (c.skip p) = c.after.takeWhile p := by
  have hafter := (leadsTo_skip p c).after_eq
  rw [after_skip] at hafter
  exact List.append_cancel_right (hafter.symm.trans List.takeWhile_append_dropWhile.symm)

theorem upTo_of_next? {c d : Cursor} {a : Char} (h : c.next? = some (a, d)) : c.upTo d = [a] := by
  have hafter := (LeadsTo.of_next? h).after_eq
  rw [after_eq_of_next? h] at hafter
  exact List.append_cancel_right (hafter.symm.trans (List.singleton_append ..).symm)

end Text.Cursor

namespace Pattern

open Text (Cursor)

variable {f : Flags} {c d : Cursor} {g : Captures} {k : Continuation}

/-- A way to match that leads from a place to one place at most, whatever has to follow. -/
def Turn.GoesTo (go : Cursor → Option Cursor) (turn : Turn) : Prop :=
  ∀ c g k, turn c g k = (go c).bind fun d => k d g

namespace Turn.GoesTo

variable {go go' : Cursor → Option Cursor} {turn turn' : Turn}

theorem seq (h : turn.GoesTo go) (h' : turn'.GoesTo go') :
    Turn.GoesTo (fun c => (go c).bind go') fun c g k => turn c g fun d g' => turn' d g' k := by
  intro c g k
  dsimp only
  rw [h c g, Option.bind_assoc]
  exact Option.bind_congr fun d _ => h' d g k

/-- A pattern that leads to one place at most ends its match there. -/
theorem stop_matchAt? {e : Expr} (h : Turn.GoesTo go (e.run f)) (c : Cursor) :
    ((⟨e, f⟩ : Pattern).matchAt? c).map Match.stop = go c := by
  rw [matchAt?, h c [] accept]
  cases go c <;> rfl

end Turn.GoesTo

theorem oneChar_goesTo (p : Char → Bool) : Turn.GoesTo (Cursor.step? p) (oneChar p) := by
  intro c g k
  rw [oneChar]
  cases hc : c.next? with
  | none =>
    rw [Cursor.step?_of_end hc]
    rfl
  | some next =>
    rw [Cursor.step?_of_next? hc]
    dsimp only
    split <;> rfl

/-- A sign matches where it comes next. -/
theorem char_goesTo (a : Char) : Turn.GoesTo (Cursor.step? (f.same a)) ((Expr.char a).run f) :=
  oneChar_goesTo (f.same a)

/-- A text matches where it comes next, if the case of letters counts. -/
theorem text_goesTo (hf : f.ignoreCase = false) (w : List Char) :
    Turn.GoesTo (Cursor.over? w) ((Expr.text w).run f) := by
  have hsame : ∀ c : Cursor, sameText f.same w c = c.over? w := by
    intro c
    refine Option.ext fun d => (sameText_eq_some_iff hf).trans ?_
    rw [Cursor.over?]
    split <;> simp [*, eq_comm]
  intro c g k
  rw [Expr.run_text, hsame]

/-- Optional turns of one character of a class take all that come next, if what has to follow
succeeds behind them, or fails before each of them. -/
theorem greedyTurns_oneChar_eq (p : Char → Bool) {fuel : Nat} {last : Option Nat}
    (hfuel : c.remaining < fuel) (hlast : last ≠ some c.pos)
    (hk : (k (c.skip p) g).isSome ∨ ∀ d, (d.step? p).isSome → k d g = none) :
    greedyTurns (oneChar p) k fuel none last c g = k (c.skip p) g := by
  induction fuel generalizing c last with
  | zero => omega
  | succ fuel ih =>
    have hturn : mayTurn none last c = true := by simp [mayTurn, hlast]
    rw [greedyTurns]
    dsimp only
    rw [if_pos hturn, Option.map_none, oneChar_goesTo p]
    cases hstep : c.step? p with
    | none =>
      rw [Cursor.skip_of_step?_none hstep]
      rfl
    | some d =>
      obtain ⟨a, hnext, -⟩ := Cursor.step?_eq_some_iff.1 hstep
      have hremaining := Cursor.remaining_eq_of_next? hnext
      have hpos := Cursor.pos_eq_of_next? hnext
      rw [Cursor.skip_of_step? hstep] at hk ⊢
      dsimp only [Option.bind_some]
      rw [ih (by omega) (by simp [hpos]) hk]
      cases hfar : k (d.skip p) g with
      | some m => rfl
      | none =>
        obtain hsome | hnone := hk
        · rw [hfar] at hsome
          cases hsome
        · exact hnone c (by rw [hstep]; rfl)

/-- Some characters, as many as there are. -/
def Expr.maybeMany (body : Expr) : Expr :=
  .turns 0 none .greedy body

theorem run_turns_ofCategory (least : Nat) (kind : Category) (c : Cursor) (g : Captures)
    (k : Continuation) :
    (Expr.turns least none .greedy (.ofCategory kind)).run f c g k =
      requiredTurns (oneChar (kind.holds f.ascii))
        (greedyTurns (oneChar (kind.holds f.ascii)) k (c.remaining + 2) none none) least c g := by
  have hturn : (fun d h k => (Expr.ofCategory kind).run f d h k) =
      oneChar (kind.holds f.ascii) := by
    funext d h k
    exact run_ofCategory kind d h k
  rw [← hturn]
  rfl

variable {kind : Category}

/-- As many characters of a category as there are, where what has to follow succeeds behind them or
fails before each of them. -/
theorem run_maybeMany
    (hk : (k (c.skip (kind.holds f.ascii)) g).isSome ∨
      ∀ d, (d.step? (kind.holds f.ascii)).isSome → k d g = none) :
    (Expr.maybeMany (.ofCategory kind)).run f c g k = k (c.skip (kind.holds f.ascii)) g := by
  rw [Expr.maybeMany, run_turns_ofCategory, requiredTurns]
  exact greedyTurns_oneChar_eq _ (by omega) (by simp) hk

/-- A run of characters of a category, where what has to follow succeeds behind it. -/
theorem run_many (hk : ∀ d, (k d g).isSome) :
    (Expr.many (.ofCategory kind)).run f c g k =
      (c.runEnd? (kind.holds f.ascii)).bind (k · g) := by
  rw [Expr.many, run_turns_ofCategory, requiredTurns]
  dsimp only
  rw [oneChar_goesTo, Cursor.runEnd?_eq]
  cases hstep : c.step? (kind.holds f.ascii) with
  | none => rfl
  | some d =>
    obtain ⟨a, hnext, -⟩ := Cursor.step?_eq_some_iff.1 hstep
    have hremaining := Cursor.remaining_eq_of_next? hnext
    exact greedyTurns_oneChar_eq _ (by omega) (by simp) (.inl (hk _))

/-- **A sign, blanks and another pattern** that never begins with a blank. -/
theorem goesTo_blanksThen {e : Expr} {go : Cursor → Option Cursor} (a : Char)
    (h : Turn.GoesTo go (e.run f))
    (hfirst : ∀ d, (d.step? (kind.holds f.ascii)).isSome → go d = none) :
    Turn.GoesTo
      (fun c => (c.step? (f.same a)).bind fun d => go (d.skip (kind.holds f.ascii)))
      ((Expr.seq (.char a) (.seq (.maybeMany (.ofCategory kind)) e)).run f) := by
  refine (char_goesTo a).seq fun c g k => ?_
  rw [Expr.run, run_maybeMany, h]
  exact .inr fun d hd => by rw [h, hfirst d hd, Option.bind_none]

/-- **A sign, blanks and a run** of a category that has no blanks. -/
theorem stop_signThenRun (a : Char) (kind kind' : Category)
    (hapart : ∀ b, kind.holds f.ascii b = true → kind'.holds f.ascii b = false) (c : Cursor) :
    ((⟨.seq (.char a) (.seq (.maybeMany (.ofCategory kind)) (.many (.ofCategory kind'))), f⟩ :
        Pattern).matchAt? c).map Match.stop =
      (c.step? (f.same a)).bind fun d =>
        (d.skip (kind.holds f.ascii)).runEnd? (kind'.holds f.ascii) := by
  have hnone : ∀ d : Cursor, (d.step? (kind.holds f.ascii)).isSome →
      d.runEnd? (kind'.holds f.ascii) = none := by
    intro d hd
    obtain ⟨e, he⟩ := Option.isSome_iff_exists.1 hd
    obtain ⟨b, hnext, hb⟩ := Cursor.step?_eq_some_iff.1 he
    exact Cursor.runEnd?_of_not hnext (hapart b hb)
  rw [matchAt?, Expr.run, char_goesTo]
  cases c.step? (f.same a) with
  | none => rfl
  | some d =>
    rw [Option.bind_some, Option.bind_some, Expr.run, run_maybeMany, run_many fun _ => rfl]
    · cases (d.skip (kind.holds f.ascii)).runEnd? (kind'.holds f.ascii) <;> rfl
    · refine .inr fun e he => ?_
      rw [run_many fun _ => rfl, hnone e he, Option.bind_none]

/-- A run that may be left out, remembered as a group, ends behind the characters that come. -/
theorem run_maybeRun (n : Nat) (kind : Category) (c : Cursor) (g : Captures) :
    ∃ h, (Expr.turns 0 (some 1) .greedy (.group n (.many (.ofCategory kind)))).run f c g accept =
      some ⟨c.skip (kind.holds f.ascii), h⟩ := by
  rw [Expr.run_optional, Expr.run, run_many fun _ => rfl, Cursor.runEnd?_eq]
  cases hstep : c.step? (kind.holds f.ascii) with
  | none => exact ⟨g, by rw [Cursor.skip_of_step?_none hstep]; rfl⟩
  | some d => exact ⟨_, by rw [Cursor.skip_of_step? hstep]; rfl⟩

/-- **A sign, blanks and a run that may be left out.** -/
theorem stop_signThenMaybeRun (a : Char) (n : Nat) (kind kind' : Category) (c : Cursor) :
    ((⟨.seq (.char a) (.seq (.maybeMany (.ofCategory kind))
        (.turns 0 (some 1) .greedy (.group n (.many (.ofCategory kind'))))), f⟩ :
        Pattern).matchAt? c).map Match.stop =
      (c.step? (f.same a)).map fun d =>
        (d.skip (kind.holds f.ascii)).skip (kind'.holds f.ascii) := by
  rw [matchAt?, Expr.run, char_goesTo]
  cases c.step? (f.same a) with
  | none => rfl
  | some d =>
    obtain ⟨h, hrun⟩ := run_maybeRun (f := f) n kind' (d.skip (kind.holds f.ascii)) []
    rw [Option.bind_some, Option.map_some, Expr.run, run_maybeMany, hrun, Option.map_some]
    exact .inl (by rw [hrun]; rfl)

/-! ## Looking ahead -/

/-- A look ahead takes nothing. -/
theorem stop_ahead (e : Expr) (c : Cursor) :
    ((⟨.ahead false e, f⟩ : Pattern).matchAt? c).map Match.stop =
      if (e.run f c [] accept).isSome then some c else none := by
  simp only [matchAt?, Expr.run]
  cases e.run f c [] accept <;> rfl

theorem isSome_run_alt (a b : Expr) :
    ((Expr.alt a b).run f c g k).isSome = ((a.run f c g k).isSome || (b.run f c g k).isSome) := by
  rw [Expr.run]
  cases a.run f c g k <;> rfl

theorem isSome_run_char (a : Char) :
    ((Expr.char a).run f c g accept).isSome = c.after.head?.any (f.same a) := by
  rw [char_goesTo]
  cases hc : c.next? with
  | none =>
    rw [Cursor.step?_of_end hc, Cursor.after_eq_nil_of_next? hc]
    rfl
  | some next =>
    rw [Cursor.step?_of_next? hc, Cursor.after_eq_of_next? hc]
    cases hsame : f.same a next.1 <;> simp [hsame, accept]

theorem isSome_run_lineEnd (hf : f.multiLine = true) :
    ((Expr.anchor .lineEnd).run f c g accept).isSome = c.after.head?.all (· == '\n') := by
  rw [Expr.run, Anchor.holds, hf, if_pos rfl, Cursor.atLineEnd]
  cases c.after with
  | nil => rfl
  | cons b rest => cases hb : b == '\n' <;> simp [hb, accept]

end Pattern
end DocHighlighter
