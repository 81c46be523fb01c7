/-
# The first rule that matches

Of the rules of a state the first one that matches gives the step (`firstMatch?_of_split`).
Whether a rule misses at a place can be computed: a written pattern is read and run
(`Rule.missesAt`), a rule for words compares each of them (`wordsMissAt`).
-/

import DocHighlighter.Proofs.Scanner.Takes
import DocHighlighter.Proofs.Pattern.Runs

namespace DocHighlighter

open Text (Cursor)

namespace Scanner

variable {flags : Pattern.Flags} {c : Cursor} {r : Rule}

/-! ## Which rule matches first -/

/-- Whether the written pattern of a rule can be read and does not match at a place. -/
def Rule.missesAt (flags : Pattern.Flags) (c : Cursor) (r : Rule) : Bool :=
  match r.pattern with
  | .built _ => false
  | .written text =>
    match Pattern.readChars flags (Text.chars text) with
    | .error _ => false
    | .ok p => (p.matchAt? c).isNone

theorem Rule.misses_of_missesAt (h : r.missesAt flags c = true) : r.Misses flags c := by
  intro p hp
  unfold missesAt at h
  split at h
  · cases h
  · next text htext =>
    rw [htext] at hp
    rw [← Pattern.read_eq, show Pattern.read flags text = .ok p from hp] at h
    exact Option.isNone_iff_eq_none.1 h

/-- Whether the beginning of a rule for words does not lie at a place, or none of the words lies
behind it. -/
def wordsMissAt (flags : Pattern.Flags) (c : Cursor) (start : String) (words : List String) : Bool :=
  match Pattern.sameText flags.same (Text.chars start) c with
  | none => true
  | some d => words.all fun w => (Pattern.sameText flags.same (Text.chars w) d).isNone

theorem misses_onWords {start : String} {words : List String} {kind : Kind}
    (h : wordsMissAt flags c start words = true) : (onWords start words kind).Misses flags c := by
  rintro p rfl
  unfold wordsMissAt at h
  rw [Text.chars_eq] at h
  simp only [Pattern.matchAt?, Pattern.Expr.run, Pattern.Expr.run_text]
  cases hstart : Pattern.sameText flags.same start.toList c with
  | none => rfl
  | some d =>
    rw [hstart] at h
    simp only [Option.bind_some, Pattern.Expr.oneOfWords, Pattern.Expr.run_altAll,
      List.findSome?_map]
    refine List.findSome?_eq_none_iff.2 fun word hword => ?_
    obtain ⟨w, hw, rfl⟩ := List.mem_map.1
      (Pattern.mem_inOrder.1 ((Pattern.mem_tryOrder _ _).1 hword))
    have hnone := Option.isNone_iff_eq_none.1 (List.all_eq_true.1 h w hw)
    rw [Text.chars_eq] at hnone
    rw [Function.comp_apply, Pattern.Expr.run_text, hnone]
    rfl

/-- Whether the written pattern of a rule matches at a place, with the given group. -/
def Rule.capturesAt (flags : Pattern.Flags) (c : Cursor) (group : Nat) (r : Rule) : Bool :=
  match r.pattern with
  | .built _ => false
  | .written text =>
    match Pattern.readChars flags (Text.chars text) with
    | .error _ => false
    | .ok p => ((p.matchAt? c).bind fun m => m.captures.get? group).isSome

theorem Rule.exists_match_of_capturesAt {group : Nat} (h : r.capturesAt flags c group = true) :
    ∃ p m s, r.pattern.Reads flags p ∧ p.matchAt? c = some m ∧ m.captures.get? group = some s := by
  unfold capturesAt at h
  split at h
  · cases h
  · next text htext =>
    rw [htext, ← Pattern.read_eq] at *
    split at h
    · cases h
    · next p hp =>
      obtain ⟨s, hs⟩ := Option.isSome_iff_exists.1 h
      obtain ⟨m, hm, hs⟩ := Option.bind_eq_some_iff.1 hs
      exact ⟨p, m, s, hp, hm, hs⟩

/-- The first rule of a state that matches, once the rules are read. -/
theorem firstMatch?_of_split {state : String} {before after : List Rule} {ready : List ReadyRule}
    (hall : List.Forall₂ (fun r rr => Rule.ready flags state r = .ok rr) (before ++ r :: after) ready)
    (hbefore : ∀ r' ∈ before, r'.Misses flags c) {p : Pattern} {m : Pattern.Match}
    (hp : r.pattern.Reads flags p) (hm : p.matchAt? c = some m) :
    firstMatch? ready c = some (⟨p, r.action, r.moves⟩, m) := by
  unfold firstMatch?
  induction before generalizing ready with
  | nil =>
    cases hall with
    | @cons _ rr _ _ hr _ =>
      obtain ⟨pattern, action, moves⟩ := rr
      obtain ⟨hread, rfl, rfl⟩ := Rule.ready_eq_ok.1 hr
      obtain rfl := hread.unique hp
      rw [List.findSome?_cons, hm]
      rfl
  | cons r₀ before ih =>
    cases hall with
    | @cons _ rr _ _ hr hall =>
      rw [List.findSome?_cons, hbefore r₀ List.mem_cons_self _ (Rule.ready_eq_ok.1 hr).1]
      exact ih hall fun r' hr' => hbefore r' (List.mem_cons_of_mem _ hr')

end Scanner
end DocHighlighter
