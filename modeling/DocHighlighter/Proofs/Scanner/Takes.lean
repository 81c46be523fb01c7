/-
# Rules that take a character

Most rules of a scanner table take a character wherever they match, and that can be seen from
their patterns: a written one is read, and its least width is not zero (`Rule.passes`); one of
some words is never empty if none of the words is (`takes_onWords`).  The few written patterns
that may match the empty text make plain text and move (`Rule.isFree`).

Reading a pattern goes character by character, and the characters of a text are had from its
bytes (`Pattern.read_eq`).
-/

import DocHighlighter.Proofs.Scanner.Weights
import DocHighlighter.Proofs.Text.Utf8

namespace DocHighlighter

/-- Reads the pattern that some characters write. -/
def Pattern.readChars (flags : Pattern.Flags) (written : List Char) :
    Except Pattern.Fault Pattern := do
  let signs := Pattern.Sign.ofText written
  let start ← Pattern.Reader.checkNext ⟨signs, 0, flags, #[], [], none, [], [], none⟩
  let (expr, r) ← Pattern.readAll (2 * signs.length + 4) flags.verbose start
  if let some fault := r.behindFault then throw fault
  return ⟨expr, r.flags⟩

theorem Pattern.read_eq (flags : Pattern.Flags) (written : String) :
    Pattern.read flags written = Pattern.readChars flags (Text.chars written) := by
  rw [Text.chars_eq]
  rfl

namespace Scanner

variable {flags : Pattern.Flags} {w : Weights} {state : String} {r : Rule}

/-! ## Written patterns -/

/-- A rule that makes plain text and moves is free to take no character. -/
def Rule.isFree (r : Rule) : Bool :=
  match r.action, r.moves with
  | .token .text, _ :: _ => true
  | _, _ => false

/-- Whether the written pattern of a rule can be read, its nested scans are shorter than the text to
come, it makes two moves at most, and it takes a character unless it is free not to. -/
def Rule.passes (flags : Pattern.Flags) (r : Rule) : Bool :=
  match r.pattern with
  | .built _ => true
  | .written text =>
    match Pattern.readChars flags (Text.chars text) with
    | .error _ => false
    | .ok p => (r.isFree || p.expr.least != 0) && r.action.nestsInside p.expr &&
        r.moves.length ≤ 2

/-- Whether a rule has a written pattern and is not free to take no character. -/
def Rule.isPlain (r : Rule) : Bool :=
  match r.pattern with
  | .built _ => false
  | .written _ => !r.isFree

theorem Rule.exists_isSound_of_passes (h : r.passes flags = true) {text : String}
    (htext : r.pattern = .written text) :
    ∃ p, r.IsSound flags p ∧ (r.isFree = true ∨ p.expr.least ≠ 0) := by
  obtain ⟨source, action, moves⟩ := r
  obtain rfl : source = .written text := htext
  unfold passes at h
  dsimp only at h
  cases hread : Pattern.readChars flags (Text.chars text) with
  | error fault =>
    rw [hread] at h
    cases h
  | ok p =>
    rw [hread] at h
    simp only [Bool.and_eq_true, Bool.or_eq_true, bne_iff_ne, decide_eq_true_eq] at h
    exact ⟨p, ⟨(Pattern.read_eq flags text).trans hread, h.1.2, h.2⟩, h.1.1⟩

theorem Rule.takes_of_isPlain (h : r.passes flags = true) (hplain : r.isPlain = true) :
    r.Takes flags := by
  unfold isPlain at hplain
  split at hplain
  · cases hplain
  · next text htext =>
    obtain ⟨p, hp, hfree | hleast⟩ := Rule.exists_isSound_of_passes h htext
    · rw [hfree] at hplain
      cases hplain
    · exact ⟨p, hp, Pattern.neverEmpty_of_least p.flags hleast⟩

/-- All written patterns of a table pass. -/
def Table.passes (flags : Pattern.Flags) (t : Table) : Bool :=
  t.all fun s => s.2.all (Rule.passes flags)

theorem Rule.passes_of_mem {t : Table} (h : t.passes flags = true) {s : String × List Rule}
    (hs : s ∈ t) (hr : r ∈ s.2) : r.passes flags = true :=
  List.all_eq_true.1 (List.all_eq_true.1 h s hs) r hr

/-! ## Rules that settle -/

/-- A rule has a written pattern that takes a character if it passes, or it takes one anyway, or it
lowers the weight of a stack. -/
inductive Rule.Settles (w : Weights) (flags : Pattern.Flags) (state : String)
    (r : Rule) : Prop
  | plain (h : r.isPlain = true)
  | takes (h : r.Takes flags)
  | lowers (h : ∀ before, r.Lowers w flags state before)

/-- All rules of a list settle in a state. -/
def AllSettle (w : Weights) (flags : Pattern.Flags) (state : String)
    (rules : List Rule) : Prop :=
  ∀ r ∈ rules, r.Settles w flags state

namespace AllSettle

variable {rules rules' : List Rule}

theorem of_plain (h : rules.all (Rule.isPlain) = true) : AllSettle w flags state rules :=
  fun r hr => .plain (List.all_eq_true.1 h r hr)

theorem one (h : r.Settles w flags state) : AllSettle w flags state [r] := by
  intro r' hr'
  obtain rfl := List.mem_singleton.1 hr'
  exact h

theorem append (h : AllSettle w flags state rules)
    (h' : AllSettle w flags state rules') : AllSettle w flags state (rules ++ rules') :=
  List.forall_mem_append.2 ⟨h, h'⟩

theorem cons (h : r.Settles w flags state) (h' : AllSettle w flags state rules) :
    AllSettle w flags state (r :: rules) :=
  List.forall_mem_cons.2 ⟨h, h'⟩

end AllSettle

/-- Each rule of a state settles, or lowers the weight where those before it do not match. -/
def StateSettles (w : Weights) (flags : Pattern.Flags) (state : String) (rules : List Rule) :
    Prop :=
  ∀ before r after, rules = before ++ r :: after →
    r.Settles w flags state ∨ r.Lowers w flags state before

theorem AllSettle.stateSettles {rules : List Rule} (h : AllSettle w flags state rules) :
    StateSettles w flags state rules := by
  rintro before r after rfl
  exact .inl (h r (by simp))

/-- A state settles if its last rule lowers the weight where no other rule matches. -/
theorem AllSettle.concat {rules : List Rule} (h : AllSettle w flags state rules)
    (hr : r.Lowers w flags state rules) : StateSettles w flags state (rules ++ [r]) := by
  intro before r' after heq
  rcases List.eq_nil_or_concat after with rfl | ⟨after, last, rfl⟩
  · obtain ⟨rfl, hlast⟩ := List.append_inj' heq rfl
    obtain rfl := List.singleton_inj.1 hlast
    exact .inr hr
  · have hlast : rules ++ [r] = before ++ r' :: after ++ [last] := by simpa using heq
    have hrules := (List.append_inj' hlast rfl).1
    exact .inl (h r' (by rw [hrules]; simp))

/-- **A table settles** if its written patterns pass and its states settle. -/
theorem Table.settles_of_passes {t : Table} (hpass : t.passes flags = true)
    (h : ∀ s ∈ t, StateSettles w flags s.1 s.2) : t.Settles w flags := by
  intro s hs before r after heq
  have hr : r ∈ s.2 := by
    rw [heq]
    simp
  rcases h s hs before r after heq with hsettles | hlowers
  · cases hsettles with
    | plain hplain => exact .inl (Rule.takes_of_isPlain (Rule.passes_of_mem hpass hs hr) hplain)
    | takes htakes => exact .inl htakes
    | lowers hlowers => exact .inr (hlowers before)
  · exact .inr hlowers

/-- A rule for words takes a character, if no word is empty. -/
theorem takes_onWords {start : String} {words : List String} {kind : Kind} (h : "" ∉ words) :
    (onWords start words kind).Takes flags := by
  have hwords : [] ∉ words.map String.toList := by
    intro hmem
    obtain ⟨word, hword, hempty⟩ := List.mem_map.1 hmem
    exact h (String.toList_eq_nil_iff.1 hempty ▸ hword)
  have htakes := (Pattern.Expr.oneOfWords_takes flags hwords).seq
    (Pattern.Expr.run_takes (.anchor .wordEdge) flags)
  have hall := (Pattern.Expr.run_takes (.text start.toList) flags).seq htakes
  exact ⟨_, ⟨rfl, rfl, Nat.zero_le 2⟩, Pattern.neverEmpty_of_takes (hall.mono (by omega))⟩

theorem isSound_otherwise {moves : List Move} (h : moves.length ≤ 2) :
    (otherwise moves).IsSound flags ⟨.empty, flags⟩ :=
  ⟨rfl, rfl, h⟩

/-- Leaving a state lowers the weight, if the state weighs more than what the one below gains. -/
theorem loadAt_pop_lt {c : Text.Cursor} {rest : List String} (hstate : state ≠ rootState)
    (hroot : (state :: rest).getLast? = some rootState)
    (hlt : ∀ below, w.bonus c below < w.weight state + w.bonus c state) :
    w.loadAt c (Move.pop.apply (state :: rest)) < w.loadAt c (state :: rest) := by
  cases rest with
  | nil => exact absurd (Option.some.inj hroot) hstate
  | cons below rest =>
    have hbelow := hlt below
    rw [Move.apply, w.loadAt_cons c below, w.loadAt_cons c state, w.load_cons]
    omega

end Scanner
end DocHighlighter
