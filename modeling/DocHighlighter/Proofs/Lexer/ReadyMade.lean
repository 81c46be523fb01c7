/-
# Every text has tokens

The ready-made lexers give tokens for every text (`ReadyMade.exists_placedTokens`): the reader
of JSON never fails, and the tables of the others settle.  Their written patterns are read
once, all together (`ReadyMade.passes`).

| lexer | rules that may take no character |
|---|---|
| CMake, Bash | none |
| C, C++ | leaving the name after `struct` and the like; beginning a statement at the root |
| JavaScript | looking for a regular expression at the beginning of a line, and leaving that |
-/

import DocHighlighter.Lexer.ReadyMade
import DocHighlighter.Proofs.Lexer.CFamily
import DocHighlighter.Proofs.Lexer.Javascript

namespace DocHighlighter

open Scanner

/-- A table settles if its written patterns pass and none is free to take no character: then
nothing need weigh anything. -/
theorem Scanner.Table.settles_of_plain {flags : Pattern.Flags} {t : Table}
    (hpass : t.passes flags = true) (hplain : t.all (fun s => s.2.all Rule.isPlain) = true) :
    ∃ w, t.Settles w flags :=
  ⟨⟨fun _ => 0, fun _ _ => 0, fun _ => Nat.zero_le 2, fun _ _ => Nat.zero_le 3, rfl⟩,
    Table.settles_of_passes hpass fun s hs =>
      AllSettle.stateSettles (.of_plain (List.all_eq_true.1 hplain s hs))⟩

/-- Whether all written patterns of a lexer's table pass. -/
def Lexer.Body.passes : Lexer.Body → Bool
  | .json => true
  | .table flags t => t.passes flags

namespace ReadyMade

/-- The ready-made lexers, with the check of their tables. -/
def checked : { all : List ReadyMade // all.all (fun r => r.lexer.body.passes) = true } :=
  ⟨[.cmake, .json, .c, .cpp, .javascript, .bash], by decide +kernel⟩

theorem mem_checked (r : ReadyMade) : r ∈ checked.val := by
  cases r <;> decide

theorem passes {r : ReadyMade} {flags : Pattern.Flags} {t : Table}
    (h : r.lexer.body = .table flags t) : t.passes flags = true := by
  have hpass : r.lexer.body.passes = true := List.all_eq_true.1 checked.property r r.mem_checked
  rw [h] at hpass
  exact hpass

/-- The tables of the ready-made lexers settle. -/
theorem exists_settles {r : ReadyMade} {flags : Pattern.Flags} {t : Table}
    (h : r.lexer.body = .table flags t) : ∃ w, t.Settles w flags := by
  have hpass := passes h
  cases r with
  | json => cases h
  | cmake =>
    obtain ⟨rfl, rfl⟩ := Lexer.Body.table.inj h
    exact Table.settles_of_plain hpass rfl
  | bash =>
    obtain ⟨rfl, rfl⟩ := Lexer.Body.table.inj h
    exact Table.settles_of_plain hpass rfl
  | c =>
    obtain ⟨rfl, rfl⟩ := Lexer.Body.table.inj h
    exact ⟨_, Lexer.c_settles hpass⟩
  | cpp =>
    obtain ⟨rfl, rfl⟩ := Lexer.Body.table.inj h
    exact ⟨_, Lexer.Cpp.table_settles hpass⟩
  | javascript =>
    obtain ⟨rfl, rfl⟩ := Lexer.Body.table.inj h
    exact ⟨_, Lexer.Javascript.table_settles rfl hpass⟩

/-- **A ready-made lexer gives tokens for every text.** -/
theorem exists_placedTokens (r : ReadyMade) (text : List Char) :
    ∃ ps, r.lexer.placedTokens text = .ok ps := by
  unfold Lexer.placedTokens
  cases hbody : r.lexer.body with
  | json => exact ⟨_, rfl⟩
  | table flags t =>
    obtain ⟨w, hsettles⟩ := exists_settles hbody
    obtain ⟨ready, hready, hscan⟩ := hsettles.exists_placedScan
    obtain ⟨ps, hps⟩ := hscan text
    dsimp only
    rw [hready]
    dsimp only
    rw [hps]
    exact ⟨_, rfl⟩

end ReadyMade
end DocHighlighter
