/-
# Command lines without options

Arguments that do not begin with a hyphen are plain, and are taken as they are: a command line
`render PATH...` or `highlight LANGUAGE FILE` of such arguments is read as the command that it
names, whatever else the arguments are (`Command.read_render`, `Command.read_highlight`).
-/

import DocHighlighter.Command.Basic
import Mathlib.Data.List.TakeWhile

namespace DocHighlighter
namespace Arguments

variable {κ : Type} {args : List String}

/-- Arguments that are no options. -/
def ArePlain (args : List String) : Prop :=
  ∀ a ∈ args, startsWith "-" a = false

theorem ne_separator {a : String} (h : startsWith "-" a = false) : a ≠ "--" := by
  rintro rfl
  exact absurd h (by decide)

theorem classify_of_plain (choices : List (Choice κ)) {a : String}
    (h : startsWith "-" a = false) : classify choices a = .ok (.plain a) := by
  simp [classify, h]

theorem classifyAll_of_plain (choices : List (Choice κ)) (h : ArePlain args) :
    classifyAll choices args = .ok (args.map .plain) := by
  induction args with
  | nil => rfl
  | cons a args ih =>
    obtain ⟨ha, hargs⟩ := List.forall_mem_cons.1 h
    have hne : (a == "--") = false := beq_false_of_ne (ne_separator ha)
    simp [classifyAll, hne, classify_of_plain choices ha, ih hargs, bind, Except.bind, pure,
      Except.pure]

theorem map_text_plain (args : List String) :
    (args.map (Argument.plain (κ := κ))).map Argument.text = args := by
  rw [List.map_map]
  exact List.map_id args

theorem erase_separator (h : ArePlain args) : args.erase "--" = args :=
  List.erase_of_not_mem fun hmem => ne_separator (h _ hmem) rfl

/-- Plain arguments fill one slot for several. -/
theorem read_several (choices : List (Choice κ)) (stop : κ → Bool) (h : ArePlain args)
    (hne : args ≠ []) :
    read choices [.several] stop args = .ok ([], { filled := [args] }) := by
  obtain ⟨a, rest, rfl⟩ := List.exists_cons_of_ne_nil hne
  have hcount : Slot.several.count? ((a :: rest).map (Argument.plain (κ := κ))) =
      some (a :: rest).length := by
    have hall : (rest.map (Argument.plain (κ := κ))).takeWhile (!·.isOption) =
        rest.map Argument.plain := by
      refine List.takeWhile_eq_self_iff.2 fun b hb => ?_
      obtain ⟨t, -, rfl⟩ := List.mem_map.1 hb
      rfl
    simp [Slot.count?, separators, Argument.isSeparator, hall, Nat.add_comm]
  have hfill : fill [.several] ((a :: rest).map (Argument.plain (κ := κ))) =
      ([a :: rest], [], []) := by
    have hlength : (a :: rest).length = ((a :: rest).map (Argument.plain (κ := κ))).length := by
      simp
    rw [fill, hcount, hlength]
    dsimp only
    rw [List.take_length, List.drop_length, map_text_plain, erase_separator h]
    rfl
  rw [Arguments.read, classifyAll_of_plain choices h]
  show readFrom stop _ _ ((a :: rest).map Argument.plain) _ = _
  rw [readFrom.eq_def]
  dsimp only
  split
  · next hoption => exact absurd hoption (by simp)
  · rw [hfill]
    rfl

/-- A plain argument, and perhaps another one, fill two slots. -/
theorem read_two (choices : List (Choice κ)) (stop : κ → Bool) {a : String} {b : Option String}
    (ha : startsWith "-" a = false) (hb : ∀ t ∈ b, startsWith "-" t = false) :
    read choices [.one, .perhapsOne] stop (a :: b.toList) =
      .ok ([], { filled := [[a], b.toList] }) := by
  have hplain : ArePlain (a :: b.toList) :=
    List.forall_mem_cons.2 ⟨ha, fun t ht => hb t (Option.mem_toList.1 ht)⟩
  rw [Arguments.read, classifyAll_of_plain choices hplain]
  have hfirst : [a].erase "--" = [a] := erase_separator (List.forall_mem_singleton.2 ha)
  cases b with
  | none =>
    show Except.ok (([] : List Slot), ({ filled := [[a].erase "--", []] } : Reading κ)) = _
    rw [hfirst]
    rfl
  | some b =>
    have hsecond : [b].erase "--" = [b] :=
      erase_separator (List.forall_mem_singleton.2 (hb b rfl))
    show Except.ok (([] : List Slot),
      ({ filled := [[a].erase "--", [b].erase "--"] } : Reading κ)) = _
    rw [hfirst, hsecond]
    rfl

end Arguments

namespace Command

open Arguments

variable {args : List String}

/-- A command line of plain paths asks for rendering them. -/
theorem read_render (h : ArePlain args) (hne : args ≠ []) :
    Command.read ("render" :: args) = .ok (.run (.render (args.map Path.read) false false)) := by
  have hform : readForm ⟨"render", renderChoices, [.several]⟩ false args =
      .ok (.run (.render (args.map Path.read) false false)) := by
    rw [readForm, read_several renderChoices _ h hne]
    rfl
  rw [← hform]
  rfl

/-- A command line of a plain name, and perhaps a plain path, asks for highlighting. -/
theorem read_highlight {language : String} {file : Option String}
    (hlanguage : startsWith "-" language = false)
    (hfile : ∀ t ∈ file, startsWith "-" t = false) :
    Command.read ("highlight" :: language :: file.toList) =
      .ok (.run (.highlight language (file.map Path.read))) := by
  have hform : readForm ⟨"highlight", [help], [.one, .perhapsOne]⟩ false
      (language :: file.toList) = .ok (.run (.highlight language (file.map Path.read))) := by
    rw [readForm, read_two [help] _ hlanguage hfile]
    cases file <;> rfl
  rw [← hform]
  rfl

end Command
end DocHighlighter
