/-
# What the built-in patterns match

The patterns of a scanner table that no one has written are simple, and here it is said directly
what they match, without turns, continuations and second thoughts.

| pattern | its match at a place |
|---|---|
| `anything` | the next character |
| `any` | the next character, unless it is a newline |
| `many (ofCategory kind)` | all the characters of the category that come next, one at least |
| `wholeWord words` | the first of the words that lies here between two word edges |
-/

import DocHighlighter.Proofs.Pattern.Words

namespace DocHighlighter

namespace Text.Cursor

/-- The place so many characters on, or the end of the text. -/
def past : (n : Nat) → Cursor → Cursor
  | 0, c => c
  | n + 1, c =>
    match c.next? with
    | some (_, d) => past n d
    | none => c

/-- Where the characters of a class that come next end, if there are any. -/
def runEnd? (p : Char → Bool) (c : Cursor) : Option Cursor :=
  match c.after.takeWhile p with
  | [] => none
  | a :: rest => some (c.past (a :: rest).length)

theorem after_eq_nil_of_next? {c : Cursor} (h : c.next? = none) : c.after = [] := by
  obtain ⟨before, after, pos, remaining, hp, hr⟩ := c
  cases after with
  | nil => rfl
  | cons a rest => cases h

theorem past_succ {c d : Cursor} {a : Char} (h : c.next? = some (a, d)) (n : Nat) :
    c.past (n + 1) = d.past n := by
  simp only [past, h]

variable {p : Char → Bool} {c d : Cursor} {a : Char}

theorem runEnd?_of_next?_none (h : c.next? = none) : c.runEnd? p = none := by
  rw [runEnd?, after_eq_nil_of_next? h]
  rfl

theorem runEnd?_of_not (h : c.next? = some (a, d)) (ha : p a = false) : c.runEnd? p = none := by
  rw [runEnd?, after_eq_of_next? h, List.takeWhile_cons_of_neg (by simp [ha])]

/-- A run that begins goes on from the next place. -/
theorem runEnd?_of_next? (h : c.next? = some (a, d)) (ha : p a = true) :
    c.runEnd? p = some (d.past (d.after.takeWhile p).length) := by
  rw [runEnd?, after_eq_of_next? h, List.takeWhile_cons_of_pos ha]
  dsimp only
  rw [List.length_cons, past_succ h]

end Text.Cursor

namespace Pattern

open Text (Cursor)

variable {f : Flags} {c : Cursor}

attribute [local simp] matchAt? Expr.run oneChar accept

/-- The next character matches whatever it is. -/
theorem matchAt?_anything (hf : f.ascii = false) :
    (⟨.anything, f⟩ : Pattern).matchAt? c = c.next?.map fun next => ⟨next.2, []⟩ := by
  cases hc : c.next? with
  | none => simp [Expr.anything, hc]
  | some next =>
    obtain ⟨a, d⟩ := next
    simp [Expr.anything, hc, SetItem.holds, hf]

/-- The next character matches, unless it is a newline. -/
theorem matchAt?_any (hf : f.dotAll = false) :
    (⟨.any, f⟩ : Pattern).matchAt? c =
      (c.next?.filter fun next => next.1 != '\n').map fun next => ⟨next.2, []⟩ := by
  cases hc : c.next? with
  | none => simp [hc]
  | some next =>
    obtain ⟨a, d⟩ := next
    by_cases ha : a = '\n' <;>
      simp [hc, hf, ha, Option.filter_some]

/-- Any one character of a line matches where one comes next. -/
theorem isSome_matchAt?_any {d : Cursor} {a : Char} (hc : c.next? = some (a, d)) (ha : a ≠ '\n') :
    ((⟨.any, f⟩ : Pattern).matchAt? c).isSome := by
  simp [hc, ha]

/-! ## Runs -/

/-- Optional turns of one character of a class take all that come next: by induction on the fuel,
which is more than there are characters. -/
theorem greedyTurns_oneChar (p : Char → Bool) {fuel : Nat} {last : Option Nat} {g : Captures}
    (hfuel : c.remaining < fuel) (hlast : last ≠ some c.pos) :
    greedyTurns (oneChar p) accept fuel none last c g =
      some ⟨c.past (c.after.takeWhile p).length, g⟩ := by
  induction fuel generalizing c last with
  | zero => omega
  | succ fuel ih =>
    have hturn : mayTurn none last c = true := by simp [mayTurn, hlast]
    rw [greedyTurns]
    dsimp only
    rw [if_pos hturn, Option.map_none, oneChar]
    cases hc : c.next? with
    | none =>
      rw [Cursor.after_eq_nil_of_next? hc]
      rfl
    | some next =>
      obtain ⟨a, d⟩ := next
      rw [Cursor.after_eq_of_next? hc]
      by_cases ha : p a = true
      · have hremaining := Cursor.remaining_eq_of_next? hc
        have hpos := Cursor.pos_eq_of_next? hc
        dsimp only
        rw [if_pos ha, ih (by omega) (by simp [hpos]), List.takeWhile_cons_of_pos ha,
          List.length_cons, Cursor.past_succ hc]
      · dsimp only
        rw [if_neg ha, List.takeWhile_cons_of_neg ha]
        rfl

/-- A character of a category matches where one comes next. -/
theorem run_ofCategory (kind : Category) (c : Cursor) (g : Captures) (k : Continuation) :
    (Expr.ofCategory kind).run f c g k = oneChar (kind.holds f.ascii) c g k := by
  have hclass : (fun a => ([SetItem.category kind false].any fun i => i.holds f a) != false) =
      kind.holds f.ascii := by
    funext a
    simp [SetItem.holds]
  rw [Expr.ofCategory, Expr.run, hclass]

/-- **A run of characters of a category** matches where one of them comes next, and takes all. -/
theorem matchAt?_many (kind : Category) :
    (⟨.many (.ofCategory kind), f⟩ : Pattern).matchAt? c =
      (c.runEnd? (kind.holds f.ascii)).map fun d => ⟨d, []⟩ := by
  have hturn : (fun d h k => (Expr.ofCategory kind).run f d h k) = oneChar (kind.holds f.ascii) := by
    funext d h k
    exact run_ofCategory kind d h k
  have hrun : (⟨.many (.ofCategory kind), f⟩ : Pattern).matchAt? c =
      oneChar (kind.holds f.ascii) c []
        (greedyTurns (oneChar (kind.holds f.ascii)) accept (c.remaining + 2) none none) := by
    rw [← hturn]
    rfl
  rw [hrun, oneChar]
  cases hc : c.next? with
  | none =>
    rw [Cursor.runEnd?_of_next?_none hc]
    rfl
  | some next =>
    obtain ⟨a, d⟩ := next
    dsimp only
    by_cases ha : kind.holds f.ascii a = true
    · have hremaining := Cursor.remaining_eq_of_next? hc
      rw [if_pos ha, greedyTurns_oneChar _ (by omega) (by simp), Cursor.runEnd?_of_next? hc ha]
      rfl
    · rw [if_neg ha, Cursor.runEnd?_of_not hc (Bool.eq_false_iff.2 ha)]
      rfl

/-- A run of characters of a category matches wherever one of them comes next. -/
theorem isSome_matchAt?_many {kind : Category} {d : Cursor} {a : Char}
    (hc : c.next? = some (a, d)) (ha : kind.holds f.ascii a = true) :
    ((⟨.many (.ofCategory kind), f⟩ : Pattern).matchAt? c).isSome := by
  rw [matchAt?_many, Cursor.runEnd?_of_next? hc ha]
  rfl

/-- A body that may be left out is tried first. -/
theorem Expr.run_optional (body : Expr) (g : Captures) (k : Continuation) :
    (Expr.turns 0 (some 1) .greedy body).run f c g k = (body.run f c g k).or (k c g) := by
  show greedyTurns (fun d h k => body.run f d h k) k (c.remaining + 1 + 1) (some 1) none c g = _
  have hlast : greedyTurns (fun d h k => body.run f d h k) k (c.remaining + 1) (some 0)
      (some c.pos) = k := by
    funext d h
    simp [greedyTurns, mayTurn]
  rw [greedyTurns]
  dsimp only
  rw [if_pos (by simp [mayTurn]), Option.map_some, hlast]
  cases body.run f c g k <;> rfl

/-! ## Words -/

namespace Expr

theorem run_text_cons (a : Char) (rest : List Char) (g : Captures) (k : Continuation) :
    (text (a :: rest)).run f c g k =
      oneChar (f.same a) c g fun d h => (text rest).run f d h k := by
  cases rest <;> rfl

/-- A text matches where it lies, character by character. -/
theorem run_text (w : List Char) (g : Captures) (k : Continuation) :
    (text w).run f c g k = (sameText f.same w c).bind (k · g) := by
  induction w generalizing c with
  | nil => rfl
  | cons a rest ih =>
    rw [run_text_cons, oneChar, sameText]
    cases hc : c.next? with
    | none => rfl
    | some next =>
      dsimp only
      split
      · exact ih
      · rfl

theorem run_altAll_nil (g : Captures) (k : Continuation) : (altAll []).run f c g k = none := by
  simp only [altAll, run, oneChar, List.any_nil]
  cases c.next? <;> rfl

theorem run_altAll_cons (e : Expr) (es : List Expr) (g : Captures) (k : Continuation) :
    (altAll (e :: es)).run f c g k = (e.run f c g k).or ((altAll es).run f c g k) := by
  cases es with
  | nil => rw [run_altAll_nil, Option.or_none, altAll]
  | cons e' es =>
    rw [altAll, run]
    · cases e.run f c g k <;> rfl
    · exact List.cons_ne_nil e' es

/-- Of some expressions the first that matches is taken. -/
theorem run_altAll (es : List Expr) (g : Captures) (k : Continuation) :
    (altAll es).run f c g k = es.findSome? fun e => e.run f c g k := by
  induction es with
  | nil => exact run_altAll_nil g k
  | cons e es ih =>
    rw [run_altAll_cons, ih, List.findSome?_cons]
    cases e.run f c g k <;> rfl

end Expr

/-- Where a word ends that lies at a place between two word edges. -/
def wholeWordEnd? (f : Flags) (c : Cursor) (word : List Char) : Option Cursor :=
  if isWordEdge f.ascii c then (sameText f.same word c).filter (isWordEdge f.ascii) else none

/-- **A whole word** matches where one lies between two word edges: the first of the words, in the
order in which they are tried. -/
theorem matchAt?_wholeWord (words : List (List Char)) :
    (⟨.wholeWord words, f⟩ : Pattern).matchAt? c =
      ((tryOrder (inOrder words)).findSome? (wholeWordEnd? f c)).map fun d => ⟨d, []⟩ := by
  have hword : ∀ word, (if isWordEdge f.ascii c then
      (Expr.text word).run f c [] fun d g => (Expr.anchor .wordEdge).run f d g accept else none) =
        (wholeWordEnd? f c word).map fun d => ⟨d, []⟩ := by
    intro word
    rw [wholeWordEnd?, Expr.run_text]
    split
    · cases sameText f.same word c with
      | none => rfl
      | some d =>
        cases hedge : isWordEdge f.ascii d <;>
          simp [Anchor.holds, hedge, Option.filter_some]
    · rfl
  rw [List.map_findSome?]
  simp only [matchAt?, Expr.wholeWord, Expr.run, Anchor.holds, Expr.oneOfWords, Expr.run_altAll,
    List.findSome?_map, Function.comp_def, ← hword]
  split
  · rfl
  · exact (List.findSome?_eq_none_iff.2 fun _ _ => rfl).symm

/-! ## Words that begin at one place -/

/-- Without a difference of case, a word lies where the text goes on with it. -/
theorem sameText_eq_some_iff (hf : f.ignoreCase = false) {w : List Char} {d : Cursor} :
    sameText f.same w c = some d ↔ w <+: c.after ∧ d = c.past w.length := by
  induction w generalizing c with
  | nil => simp [sameText, Cursor.past, eq_comm]
  | cons a w ih =>
    rw [sameText]
    cases hc : c.next? with
    | none => simp [Cursor.after_eq_nil_of_next? hc]
    | some next =>
      obtain ⟨b, e⟩ := next
      rw [Cursor.after_eq_of_next? hc, List.cons_prefix_cons, List.length_cons,
        Cursor.past_succ hc, and_assoc, ← ih]
      simp [Flags.same, hf]

theorem pos_past {n : Nat} (h : n ≤ c.after.length) : (c.past n).pos = c.pos + n := by
  induction n generalizing c with
  | zero => rfl
  | succ n ih =>
    cases hc : c.next? with
    | none =>
      rw [Cursor.after_eq_nil_of_next? hc] at h
      cases h
    | some next =>
      obtain ⟨a, d⟩ := next
      rw [Cursor.after_eq_of_next? hc, List.length_cons] at h
      rw [Cursor.past_succ hc, ih (by omega), Cursor.pos_eq_of_next? hc]
      omega

/-- **The longest word is taken,** without a difference of case: no word that lies at the place
between two word edges goes farther than the first that is found. -/
theorem pos_le_of_findSome? (hf : f.ignoreCase = false) {words : List (List Char)} {d d' : Cursor}
    (h : (tryOrder words).findSome? (wholeWordEnd? f c) = some d) {w : List Char}
    (hw : w ∈ words) (hw' : wholeWordEnd? f c w = some d') : d'.pos ≤ d.pos := by
  have hlies : ∀ {v e}, wholeWordEnd? f c v = some e → v <+: c.after ∧ e = c.past v.length := by
    intro v e hv
    unfold wholeWordEnd? at hv
    split at hv
    · exact (sameText_eq_some_iff hf).1 (Option.filter_eq_some_iff.1 hv).1
    · cases hv
  obtain ⟨before, v, later, hwords, hv, hnone⟩ := List.findSome?_eq_some_iff.1 h
  have hpairs := pairwise_tryOrder words
  rw [hwords, List.pairwise_append, List.pairwise_cons] at hpairs
  have hmem := (mem_tryOrder words w).2 hw
  rw [hwords, List.mem_append, List.mem_cons] at hmem
  obtain ⟨hvlies, rfl⟩ := hlies hv
  obtain ⟨hwlies, rfl⟩ := hlies hw'
  have hle : w.length ≤ v.length := by
    rcases hmem with hmem | rfl | hmem
    · rw [hnone w hmem] at hw'
      cases hw'
    · exact Nat.le_refl _
    · rcases List.prefix_or_prefix_of_prefix hvlies hwlies with hvw | hwv
      · rw [hpairs.2.1.1 w hmem hvw]
      · exact hwv.length_le
  rw [pos_past hvlies.length_le, pos_past hwlies.length_le]
  omega

end Pattern
end DocHighlighter
