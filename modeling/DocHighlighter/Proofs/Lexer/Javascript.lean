/-
# Every JavaScript text can be scanned

At the beginning of a line the scan looks for a slash that begins a regular expression, in a
state of its own, and that takes no character; neither does leaving that state.  But it is
entered so only where a blank, a slash or an old comment comes next (`slashNext`), and it is
left without a character only where none of them does.  So the states that look for a slash
have a bonus just where one of the three comes next.
-/

import DocHighlighter.Lexer.Javascript
import DocHighlighter.Proofs.Pattern.Runs
import DocHighlighter.Proofs.Scanner.Takes

namespace DocHighlighter
namespace Lexer
namespace Javascript

open Scanner
open Pattern (Expr)
open Text (Cursor)

/-- The flags that the patterns are read with. -/
abbrev flags : Pattern.Flags := { multiLine := true, dotAll := true }

/-- What comes next where the scan looks for a regular expression. -/
def slashNext : Expr :=
  .alt (.ofCategory .blank) (.alt (.char '/') (.text ['<', '!', '-', '-']))

/-- Whether one of the three comes next. -/
def isSlashNext (c : Cursor) : Bool :=
  (slashNext.run flags c [] Pattern.accept).isSome

/-- The states of a regular expression must be left, and those of a program for them. -/
def weights : Weights where
  weight state := if state = "slashstartsregex" then 2 else if state = "badregex" then 1 else 0
  bonus c state := if (state = rootState ∨ state = "interp-inside") ∧ isSlashNext c then 3 else 0
  weight_le state := by split_ifs <;> decide
  bonus_le c state := by split_ifs <;> decide
  weight_root := by decide

/-! ## The patterns that may match the empty text -/

/-- A written pattern and what it is read as. -/
structure ReadAs (written : String) where
  expr : Expr
  reads : Source.Reads flags (.written written) ⟨expr, flags⟩

def blanks : ReadAs r"\s+" where
  expr := .many (.ofCategory .blank)
  reads := (Pattern.read_eq ..).trans (by decide +kernel)

def comment : ReadAs r"<!--" where
  expr := .text ['<', '!', '-', '-']
  reads := (Pattern.read_eq ..).trans (by decide +kernel)

def slash : ReadAs r"(?=/)" where
  expr := .ahead false (.char '/')
  reads := (Pattern.read_eq ..).trans (by decide +kernel)

def lineStart : ReadAs r"^(?=\s|/|<!--)" where
  expr := .seq (.anchor .lineStart) (.ahead false slashNext)
  reads := (Pattern.read_eq ..).trans (by decide +kernel)

variable {c : Cursor} {state : String}

/-- The rule at the beginning of a line matches where one of the three comes next. -/
theorem isSlashNext_of_lineStart
    (h : (Pattern.matchAt? ⟨lineStart.expr, flags⟩ c).isSome) : isSlashNext c = true := by
  simp only [lineStart, Pattern.matchAt?, Expr.run] at h
  split_ifs at h with hstart
  · unfold Pattern.looked at h
    unfold isSlashNext
    cases hrun : slashNext.run flags c [] Pattern.accept with
    | none =>
      rw [hrun] at h
      cases h
    | some m => rfl
  · cases h

/-- Where none of the rules for the three matches, none of the three comes next. -/
theorem isSlashNext_eq_false
    (hblanks : Pattern.matchAt? ⟨blanks.expr, flags⟩ c = none)
    (hcomment : Pattern.matchAt? ⟨comment.expr, flags⟩ c = none)
    (hslash : Pattern.matchAt? ⟨slash.expr, flags⟩ c = none) :
    isSlashNext c = false := by
  have hblank : (Expr.ofCategory .blank).run flags c [] Pattern.accept = none := by
    cases hnext : c.next? with
    | none => simp only [Expr.ofCategory, Expr.run, Pattern.oneChar, hnext]
    | some next =>
      obtain ⟨a, d⟩ := next
      cases ha : Pattern.Category.blank.holds flags.ascii a with
      | true =>
        have hsome := Pattern.isSome_matchAt?_many hnext ha
        rw [blanks] at hblanks
        rw [hblanks] at hsome
        cases hsome
      | false => simp [Expr.ofCategory, Expr.run, Pattern.oneChar, hnext, Pattern.SetItem.holds, ha]
  have hchar : (Expr.char '/').run flags c [] Pattern.accept = none := by
    cases hrun : (Expr.char '/').run flags c [] Pattern.accept with
    | none => rfl
    | some m =>
      rw [slash, Pattern.matchAt?, Expr.run, hrun] at hslash
      cases hslash
  have hrun : slashNext.run flags c [] Pattern.accept = none := by
    rw [slashNext, Expr.run, hblank, Expr.run, hchar]
    exact hcomment
  rw [isSlashNext, hrun]
  rfl

/-! ## The rules that only move -/

/-- At the beginning of a line the bonus of the state is more than what is entered weighs. -/
theorem lineStart_lowers (hstate : state = rootState ∨ state = "interp-inside")
    (before : List Rule) :
    (on r"^(?=\s|/|<!--)" .text beforeSlash).Lowers weights flags state before := by
  refine ⟨_, ⟨lineStart.reads, rfl, by decide⟩, fun c rest hm _ _ => ?_⟩
  have hbonus : weights.bonus c state = 3 := if_pos ⟨hstate, isSlashNext_of_lineStart hm⟩
  change weights.loadAt c ("slashstartsregex" :: state :: rest) < _
  rw [weights.loadAt_cons, weights.loadAt_cons, weights.load_cons, hbonus]
  change 2 + _ + 0 < _
  omega

/-- A state that weighs less takes the place of the one that looked for a regular expression. -/
theorem slash_lowers (before : List Rule) :
    (on r"(?=/)" .text [.pop, .enter "badregex"]).Lowers weights flags "slashstartsregex"
      before := by
  refine ⟨_, ⟨slash.reads, rfl, by decide⟩, fun c rest _ _ hroot => ?_⟩
  cases rest with
  | nil => exact absurd (Option.some.inj hroot) (by decide)
  | cons below rest =>
    change weights.loadAt c ("badregex" :: below :: rest) < _
    rw [weights.loadAt_cons, weights.loadAt_cons]
    change 1 + _ + 0 < 2 + _ + 0
    omega

/-- Where nothing of what may come next does, no state below has a bonus. -/
theorem otherwise_lowers {before : List Rule} (hblanks : on r"\s+" .whitespace ∈ before)
    (hcomment : on r"<!--" .comment ∈ before)
    (hslash : on r"(?=/)" .text [.pop, .enter "badregex"] ∈ before) :
    (otherwise [.pop]).Lowers weights flags "slashstartsregex" before := by
  refine ⟨_, isSound_otherwise (by decide), fun c rest _ hmisses hroot => ?_⟩
  have hnone : isSlashNext c = false := isSlashNext_eq_false
    (hmisses _ hblanks _ blanks.reads) (hmisses _ hcomment _ comment.reads)
    (hmisses _ hslash _ slash.reads)
  refine loadAt_pop_lt (by decide) hroot fun below => ?_
  have hbonus : weights.bonus c below = 0 := if_neg fun h => by simp [hnone] at h
  rw [hbonus]
  exact Nat.zero_lt_succ _

/-! ## The states -/

theorem root_settle (hstate : state = rootState ∨ state = "interp-inside") :
    AllSettle weights flags state root := by
  have hidentifier : Rule.Takes flags ⟨.built identifier, .token .nameOther, []⟩ :=
    ⟨_, ⟨rfl, rfl, by decide⟩, Pattern.neverEmpty_of_least flags (by decide)⟩
  have hstart := AllSettle.one (.lowers (lineStart_lowers hstate))
  exact (((((AllSettle.cons (.plain rfl) hstart).append (.of_plain rfl)).append
    (.of_plain rfl)).append (.of_plain rfl)).append (.of_plain rfl)).append
    (.cons (.takes hidentifier) (.of_plain rfl))

theorem slashStartsRegex_settles :
    StateSettles weights flags "slashstartsregex" slashStartsRegex := by
  have hsplit : slashStartsRegex = slashStartsRegex.dropLast ++ [otherwise [.pop]] := rfl
  rw [hsplit]
  refine AllSettle.concat ?_ (otherwise_lowers ?_ ?_ ?_)
  · exact .cons (.plain rfl) <| .cons (.plain rfl) <| .cons (.plain rfl) <| .cons (.plain rfl) <|
      .cons (.plain rfl) <| .one (.lowers slash_lowers)
  all_goals simp [slashStartsRegex, commentsAndBlanks]

/-- **The table of JavaScript settles.** -/
theorem table_settles {t : Table} (ht : javascript.body = .table flags t)
    (hpass : t.passes flags = true) : t.Settles weights flags := by
  obtain ⟨-, rfl⟩ := Lexer.Body.table.inj ht
  refine Table.settles_of_passes hpass fun s hs => ?_
  simp only [List.mem_cons, List.not_mem_nil, or_false] at hs
  rcases hs with rfl | rfl | rfl | rfl | rfl
  · exact slashStartsRegex_settles
  · exact AllSettle.stateSettles (.of_plain rfl)
  · exact AllSettle.stateSettles (root_settle (.inl rfl))
  · exact AllSettle.stateSettles (.of_plain rfl)
  · exact AllSettle.stateSettles (.cons (.plain rfl) (root_settle (.inr rfl)))

end Javascript
end Lexer
end DocHighlighter
