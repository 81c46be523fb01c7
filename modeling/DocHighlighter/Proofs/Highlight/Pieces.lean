/-
# Highlighted code, piece by piece

Highlighted code is made of pieces (`Spans.Piece`): text that is escaped, and spans of a
class with such text in it.  No span has a newline in it, or another span, and none is
empty (`Piece.IsProper`).  The text of the pieces is the text of the tokens, without the
newlines at the end (`Spans.ofTokens_made`), whatever the tokens are.

A token is written line by line, and the induction is on the tokens: the lines that
are complete are made of the lines of the text (`Spans.LineOf`), and the line that is
being written holds complete markup and one open span with some text in it
(`Spans.State.Holds`).

Whoever takes the tags out of the markup and reads what is left has the text of the
pieces (`Spans.decode_withoutTags`).
-/

import DocHighlighter.Highlight.Spans
import DocHighlighter.Proofs.Html.Escaping
import Mathlib.Data.List.Forall2

namespace DocHighlighter

open Html

namespace Text

theorem splitAt_ne_nil (separator : Char) (text : List Char) : splitAt separator text ≠ [] := by
  cases text with
  | nil => simp [splitAt]
  | cons c rest =>
    rw [splitAt]
    split
    · simp
    · split <;> simp

theorem splitAt_cons (separator c : Char) (rest : List Char) :
    ∃ piece pieces, splitAt separator rest = piece :: pieces ∧ splitAt separator (c :: rest) =
      if c == separator then [] :: piece :: pieces else (c :: piece) :: pieces := by
  obtain ⟨piece, pieces, h⟩ := List.exists_cons_of_ne_nil (splitAt_ne_nil separator rest)
  exact ⟨piece, pieces, h, by rw [splitAt, h]⟩

/-- The pieces of a text do not have the separator. -/
theorem not_mem_of_mem_splitAt {separator : Char} {text piece : List Char}
    (h : piece ∈ splitAt separator text) : separator ∉ piece := by
  induction text generalizing piece with
  | nil =>
    rw [List.mem_singleton.1 h]
    exact List.not_mem_nil
  | cons c rest ih =>
    obtain ⟨first, pieces, hrest, hsplit⟩ := splitAt_cons separator c rest
    rw [hrest] at ih
    rw [hsplit] at h
    split at h
    · rcases List.mem_cons.1 h with rfl | h
      · exact List.not_mem_nil
      · exact ih h
    · next hne =>
      rcases List.mem_cons.1 h with rfl | h
      · intro hmem
        rcases List.mem_cons.1 hmem with rfl | hmem
        · exact hne (beq_self_eq_true separator)
        · exact ih List.mem_cons_self hmem
      · exact ih (List.mem_cons_of_mem _ h)

/-- The pieces of a text, with the separator between them, are the text. -/
theorem splitAt_join (separator : Char) (text : List Char) : ∃ first pieces,
    splitAt separator text = first :: pieces ∧
      text = first ++ pieces.flatMap (separator :: ·) := by
  induction text with
  | nil => exact ⟨[], [], rfl, rfl⟩
  | cons c rest ih =>
    obtain ⟨first, pieces, hrest, htext⟩ := ih
    obtain ⟨first', pieces', hrest', hsplit⟩ := splitAt_cons separator c rest
    obtain ⟨rfl, rfl⟩ := List.cons.inj (hrest.symm.trans hrest')
    by_cases hc : c = separator
    · refine ⟨[], first :: pieces, by rw [hsplit, if_pos (beq_iff_eq.2 hc)], ?_⟩
      rw [htext, hc]
      rfl
    · refine ⟨c :: first, pieces, ?_, by rw [htext]; rfl⟩
      rw [hsplit, if_neg (by simp [hc])]

/-- A text without the separator joins the first piece of what it stands before. -/
theorem splitAt_append {separator : Char} {w : List Char} (hw : separator ∉ w) (rest : List Char) :
    splitAt separator (w ++ rest) = (splitAt separator rest).modifyHead (w ++ ·) := by
  obtain ⟨piece, pieces, hrest⟩ := List.exists_cons_of_ne_nil (splitAt_ne_nil separator rest)
  rw [hrest, List.modifyHead_cons]
  induction w with
  | nil => exact hrest
  | cons d w ih =>
    obtain ⟨hd, hw⟩ := not_or.1 fun h => hw (List.mem_cons.2 h)
    rw [List.cons_append, splitAt, ih hw, List.cons_append]
    simp [Ne.symm hd]

/-- Splitting comes before or after writing, if writing keeps the separator and makes no other. -/
theorem splitAt_flatMap {separator : Char} {f : Char → List Char} (hsep : f separator = [separator])
    (hf : ∀ c, c ≠ separator → separator ∉ f c) (text : List Char) :
    splitAt separator (text.flatMap f) = (splitAt separator text).map (·.flatMap f) := by
  induction text with
  | nil => rfl
  | cons c rest ih =>
    obtain ⟨piece, pieces, hrest, hsplit⟩ := splitAt_cons separator c rest
    rw [hrest, List.map_cons] at ih
    rw [List.flatMap_cons, hsplit]
    by_cases hc : c = separator
    · rw [hc, hsep, List.singleton_append, splitAt, ih]
      simp
    · rw [splitAt_append (hf c hc), ih]
      simp [hc]

theorem stripEnd_append_of_pos {p : Char → Bool} {c : Char} (h : p c = true) (text : List Char) :
    stripEnd p (text ++ [c]) = stripEnd p text := by
  simp [stripEnd, h]

theorem mem_of_mem_stripEnd {p : Char → Bool} {c : Char} {text : List Char}
    (h : c ∈ stripEnd p text) : c ∈ text := by
  rw [stripEnd, List.mem_reverse] at h
  exact List.mem_reverse.1 ((List.dropWhile_suffix p).subset h)

theorem stripEnd_newline (text : List Char) :
    stripEnd (· == '\n') (text ++ ['\n']) = stripEnd (· == '\n') text :=
  stripEnd_append_of_pos rfl text

theorem stripEnd_of_getLast {p : Char → Bool} {text last : List Char}
    (hlast : last ≠ []) (h : ∀ c ∈ last, p c = false) :
    stripEnd p (text ++ last) = text ++ last := by
  obtain ⟨init, c, rfl⟩ : ∃ init c, last = init ++ [c] :=
    ⟨last.dropLast, last.getLast hlast, (List.dropLast_append_getLast hlast).symm⟩
  rw [← List.append_assoc]
  exact stripEnd_append_singleton_of_not (text ++ init) (h c (by simp))

end Text

namespace Spans

/-! ## Pieces -/

/-- The class is that of a kind. -/
def IsKindClass (cls : String) : Prop :=
  ∃ kind : Kind, kind.cssClass = cls

/-- A piece of highlighted code. -/
inductive Piece where
  | text (s : List Char)
  | span (cls : String) (s : List Char)

namespace Piece

/-- What a piece says. -/
def chars : Piece → List Char
  | text s => s
  | span _ s => s

/-- The tag `<span class="…">`. -/
def openingTag (cls : String) : List Char :=
  '<' :: ("span class=\"".toList ++ cls.toList ++ ['"', '>'])

/-- The tag `</span>`. -/
def closingTag : List Char :=
  '<' :: ("/span".toList ++ ['>'])

/-- A piece as markup. -/
def markup : Piece → List Char
  | text s => Text.escapeText s
  | span cls s => openingTag cls ++ Text.escapeText s ++ closingTag

/-- A span has the class of a kind, and some text of one line. -/
def IsProper : Piece → Prop
  | text _ => True
  | span cls s => IsKindClass cls ∧ cls ≠ "" ∧ s ≠ [] ∧ '\n' ∉ s

end Piece

/-- Classes are written with these characters. -/
def isClassChar (c : Char) : Bool :=
  c.isAlphanum || c == '-' || c == ' '

theorem isClassChar_of_mem_cssClass (kind : Kind) :
    ∀ c ∈ kind.cssClass.toList, isClassChar c = true := by
  cases kind <;> decide

/-- No other sign is in a class. -/
theorem IsKindClass.not_mem {cls : String} (h : IsKindClass cls) {d : Char}
    (hd : isClassChar d = false) : d ∉ cls.toList := by
  obtain ⟨kind, rfl⟩ := h
  intro hmem
  rw [isClassChar_of_mem_cssClass kind d hmem] at hd
  cases hd

/-- Markup is made of pieces that say a text. -/
def Made (w s : List Char) : Prop :=
  ∃ pieces : List Piece, (∀ p ∈ pieces, p.IsProper) ∧
    w = pieces.flatMap Piece.markup ∧ s = pieces.flatMap Piece.chars

theorem made_nil : Made [] [] :=
  ⟨[], by simp, rfl, rfl⟩

theorem made_escapeText (s : List Char) : Made (Text.escapeText s) s :=
  ⟨[.text s], by simp [Piece.IsProper], by simp [Piece.markup], by simp [Piece.chars]⟩

theorem Made.append {w v s t : List Char} (hw : Made w s) (hv : Made v t) :
    Made (w ++ v) (s ++ t) := by
  obtain ⟨ps, hps, rfl, rfl⟩ := hw
  obtain ⟨qs, hqs, rfl, rfl⟩ := hv
  refine ⟨ps ++ qs, fun p hp => ?_, List.flatMap_append.symm, List.flatMap_append.symm⟩
  exact (List.mem_append.1 hp).elim (hps p) (hqs p)

/-- A span is written as its class has it. -/
theorem markup_span {cls : String} (hne : cls ≠ "") (s : List Char) :
    (Piece.span cls s).markup = opener cls ++ Text.escapeText s ++ closer cls := by
  have hempty : ¬ cls.isEmpty = true := by simpa using hne
  rw [opener, closer, if_neg hempty, if_neg hempty]
  rfl

/-- A text in a span of a class is a piece, or is the text alone if the class is empty. -/
theorem made_span {cls : String} (hcls : IsKindClass cls) {s : List Char} (hne : s ≠ [])
    (hs : '\n' ∉ s) : Made (opener cls ++ Text.escapeText s ++ closer cls) s := by
  by_cases hempty : cls.isEmpty
  · have hplain := made_escapeText s
    simpa [opener, closer, hempty] using hplain
  · have hcls' : cls ≠ "" := by
      rintro rfl
      exact hempty rfl
    refine ⟨[.span cls s], ?_, ?_, by simp [Piece.chars]⟩
    · simp [Piece.IsProper, hcls, hcls', hne, hs]
    · rw [List.flatMap_singleton, markup_span hcls']

/-! ## Lines -/

/-- A line of markup is made of pieces that say a line of text. -/
structure LineOf (l t : List Char) : Prop where
  made : Made l t
  markup_line : '\n' ∉ l
  text_line : '\n' ∉ t
  empty_iff : l = [] ↔ t = []

theorem lineOf_nil : LineOf [] [] :=
  ⟨made_nil, List.not_mem_nil, List.not_mem_nil, Iff.rfl⟩

theorem LineOf.append {l m t u : List Char} (hl : LineOf l t) (hm : LineOf m u) :
    LineOf (l ++ m) (t ++ u) := by
  refine ⟨hl.made.append hm.made, fun h => ?_, fun h => ?_, ?_⟩
  · exact (List.mem_append.1 h).elim hl.markup_line hm.markup_line
  · exact (List.mem_append.1 h).elim hl.text_line hm.text_line
  · rw [List.append_eq_nil_iff, List.append_eq_nil_iff, hl.empty_iff, hm.empty_iff]

/-- Lines of markup, each with its newline, say lines of text. -/
def Lines (done ts : List (List Char)) : Prop :=
  List.Forall₂ (fun d t => ∃ l, d = l ++ ['\n'] ∧ LineOf l t) done ts

theorem lineOf_span {cls : String} (hcls : IsKindClass cls) {s : List Char}
    (hs : '\n' ∉ s) (hne : s ≠ []) :
    LineOf (opener cls ++ Text.escapeText s ++ closer cls) s := by
  have hescaped : '\n' ∉ Text.escapeText s :=
    fun h => hs (escape_escapeChar.mem_of_mem_flatMap (by decide) h)
  have hopener : '\n' ∉ opener cls := by
    have hclass := hcls.not_mem (d := '\n') (by decide)
    unfold opener
    split
    · exact List.not_mem_nil
    · simp [hclass]
  have hcloser : '\n' ∉ closer cls := by
    unfold closer
    split <;> decide
  refine ⟨made_span hcls hne hs, ?_, hs, ?_⟩
  · rintro h
    rcases List.mem_append.1 h with h | h
    · exact (List.mem_append.1 h).elim hopener hescaped
    · exact hcloser h
  · have hnil := escape_escapeChar.flatMap_ne_nil hne
    simp [hne, Text.escapeText, hnil]

theorem isEmpty_escapeText {s : List Char} (hne : s ≠ []) :
    (Text.escapeText s).isEmpty = false := by
  have hnil : Text.escapeText s ≠ [] := escape_escapeChar.flatMap_ne_nil hne
  rw [← Bool.not_eq_true, List.isEmpty_iff]
  exact hnil

/-- The line that is being written holds a text: complete markup, and an open span with some text
in it. -/
inductive State.Line (s : State) : List Char → Prop
  | empty (hline : s.line = []) : Line s []
  | started {before part t : List Char}
      (hline : s.line = before ++ (opener s.span ++ Text.escapeText part))
      (hbefore : LineOf before t) (hpart : '\n' ∉ part) (hne : part ≠ [])
      (hspan : IsKindClass s.span) : Line s (t ++ part)

namespace State

variable {s : State} {text : List Char}

theorem Line.eq_nil_iff {t : List Char} (h : s.Line t) : s.line = [] ↔ t = [] := by
  cases h with
  | empty hline => simp [hline]
  | @started before part t hline hbefore hpart hne hspan =>
    have hnil := escape_escapeChar.flatMap_ne_nil hne
    simp [hline, hne, Text.escapeText, hnil]

/-- Closing the open span ends the line. -/
theorem Line.closed {t : List Char} (h : s.Line t) (ht : t ≠ []) :
    LineOf (s.line ++ closer s.span) t := by
  cases h with
  | empty => exact absurd rfl ht
  | started hline hbefore hpart hne hspan =>
    rw [hline, List.append_assoc]
    exact hbefore.append (lineOf_span hspan hpart hne)

/-- Text of the class of the open span goes into that span. -/
theorem Line.grown {t part : List Char} (h : s.Line t) (ht : t ≠ []) (hpart : '\n' ∉ part) :
    ({ s with line := s.line ++ Text.escapeText part } : State).Line (t ++ part) := by
  cases h with
  | empty => exact absurd rfl ht
  | @started before first t hline hbefore hfirst hne hspan =>
    have hline' : s.line ++ Text.escapeText part =
        before ++ (opener s.span ++ Text.escapeText (first ++ part)) := by
      simp [hline, Text.escapeText]
    rw [List.append_assoc]
    exact .started hline' hbefore (by simp [hfirst, hpart]) (by simp [hne]) hspan

theorem extendLine_done (s : State) (cls : String) (part : List Char) :
    (s.extendLine cls part).done = s.done := by
  unfold State.extendLine
  split
  · rfl
  · split
    · rfl
    · split <;> rfl

theorem Line.extendLine {t part : List Char} {cls : String} (h : s.Line t)
    (hcls : IsKindClass cls) (hpart : '\n' ∉ part) :
    (s.extendLine cls (Text.escapeText part)).Line (t ++ part) := by
  by_cases hne : part = []
  · subst hne
    rw [List.append_nil]
    exact h
  · unfold State.extendLine
    rw [if_neg (by simp [isEmpty_escapeText hne])]
    by_cases ht : t = []
    · have hline : s.line = [] := h.eq_nil_iff.2 ht
      rw [if_pos (by simp [hline]), ht]
      exact .started (List.nil_append _).symm lineOf_nil hpart hne hcls
    · have hline : s.line ≠ [] := mt h.eq_nil_iff.1 ht
      rw [if_neg (by simp [hline])]
      by_cases hspan : s.span = cls
      · rw [if_pos hspan]
        exact h.grown ht hpart
      · rw [if_neg hspan]
        have hline' : s.line ++ closer s.span ++ opener cls ++ Text.escapeText part =
            (s.line ++ closer s.span) ++ (opener cls ++ Text.escapeText part) :=
          List.append_assoc ..
        exact .started hline' (h.closed ht) hpart hne hcls

theorem Line.endLine {t part : List Char} {cls : String} (h : s.Line t)
    (hcls : IsKindClass cls) (hpart : '\n' ∉ part) :
    ∃ l, LineOf l (t ++ part) ∧
      (s.endLine cls (Text.escapeText part)).done = (l ++ ['\n']) :: s.done ∧
      (s.endLine cls (Text.escapeText part)).line = [] := by
  refine ⟨_, ?_, rfl, rfl⟩
  by_cases ht : t = []
  · have hline : s.line = [] := h.eq_nil_iff.2 ht
    by_cases hne : part = []
    · simp only [hline, ht, hne, Text.escapeText, List.flatMap_nil, List.isEmpty_nil, if_true]
      exact lineOf_nil
    · simp only [hline, ht, isEmpty_escapeText hne, List.isEmpty_nil, if_true,
        Bool.false_eq_true, if_false, List.nil_append]
      exact lineOf_span hcls hpart hne
  · have hline : s.line.isEmpty = false := by
      have hnot := mt h.eq_nil_iff.1 ht
      simpa using hnot
    rw [if_neg (by simp [hline])]
    split
    · next hnew =>
      have hne : part ≠ [] := by
        rintro rfl
        exact hnew.2 rfl
      have hlines := (h.closed ht).append (lineOf_span hcls hpart hne)
      simpa using hlines
    · have hlines := (h.grown ht hpart).closed (by simp [ht])
      simpa using hlines

/-- What has been written holds a text: complete lines, the latest first, and the line that is
being written. -/
def Holds (s : State) (text : List Char) : Prop :=
  ∃ ts t, Lines s.done ts ∧ s.Line t ∧ text = ts.reverse.flatMap (· ++ ['\n']) ++ t

theorem Holds.extendLine {part : List Char} {cls : String} (h : s.Holds text)
    (hcls : IsKindClass cls) (hpart : '\n' ∉ part) :
    (s.extendLine cls (Text.escapeText part)).Holds (text ++ part) := by
  obtain ⟨ts, t, hdone, hline, rfl⟩ := h
  refine ⟨ts, t ++ part, ?_, hline.extendLine hcls hpart, List.append_assoc ..⟩
  rwa [extendLine_done]

theorem Holds.endLine {part : List Char} {cls : String} (h : s.Holds text)
    (hcls : IsKindClass cls) (hpart : '\n' ∉ part) :
    (s.endLine cls (Text.escapeText part)).Holds (text ++ part ++ ['\n']) := by
  obtain ⟨ts, t, hdone, hline, rfl⟩ := h
  obtain ⟨l, hl, hnew, hempty⟩ := hline.endLine hcls hpart
  refine ⟨(t ++ part) :: ts, [], ?_, .empty hempty, by simp⟩
  rw [hnew]
  exact .cons ⟨l, rfl, hl⟩ hdone

/-- Writing the pieces of a text adds that text. -/
theorem Holds.writeParts {parts : List (List Char)} {part : List Char} {cls : String}
    (h : s.Holds text) (hcls : IsKindClass cls)
    (hparts : ∀ p ∈ part :: parts, '\n' ∉ p) :
    (s.writeParts cls ((part :: parts).map Text.escapeText)).Holds
      (text ++ (part ++ parts.flatMap ('\n' :: ·))) := by
  induction parts generalizing s text part with
  | nil =>
    rw [List.flatMap_nil, List.append_nil]
    exact h.extendLine hcls (hparts part List.mem_cons_self)
  | cons next parts ih =>
    have hended := h.endLine hcls (hparts part List.mem_cons_self)
    have hrest := ih hended fun p hp => hparts p (List.mem_cons_of_mem _ hp)
    have htext : text ++ (part ++ (next :: parts).flatMap ('\n' :: ·)) =
        text ++ part ++ ['\n'] ++ (next ++ parts.flatMap ('\n' :: ·)) := by simp
    rw [htext]
    exact hrest

/-- Writing a token adds its text. -/
theorem Holds.write {t : Token} (h : s.Holds text) :
    (s.write t).Holds (text ++ t.text.toList) := by
  have hnewline : ∀ c, c ≠ '\n' → '\n' ∉ Text.escapeChar c := by
    intro c hc hmem
    rcases escape_escapeChar.letters c _ hmem with he | he
    · exact hc he.symm
    · exact absurd he (by decide)
  have hsplit : Text.splitAt '\n' (Text.escapeText t.text.toList) =
      (Text.splitAt '\n' t.text.toList).map Text.escapeText :=
    Text.splitAt_flatMap rfl hnewline t.text.toList
  obtain ⟨part, parts, hparts, hjoin⟩ := Text.splitAt_join '\n' t.text.toList
  have hpieces : ∀ p ∈ part :: parts, '\n' ∉ p := by
    intro p hp
    rw [← hparts] at hp
    exact Text.not_mem_of_mem_splitAt hp
  rw [State.write, hsplit, hparts, hjoin]
  exact h.writeParts ⟨t.kind, rfl⟩ hpieces

theorem holds_foldl_write (tokens : List Token) (h : s.Holds text) :
    (tokens.foldl State.write s).Holds (text ++ Token.textOf tokens) := by
  induction tokens generalizing s text with
  | nil =>
    rw [show Token.textOf [] = [] from rfl, List.append_nil]
    exact h
  | cons t tokens ih =>
    rw [Token.textOf_cons, ← List.append_assoc]
    exact ih h.write

end State

/-! ## The whole -/

theorem made_newline : Made ['\n'] ['\n'] :=
  made_escapeText ['\n']

variable {done ts : List (List Char)}

/-- Lines with their newlines, the latest first, say their texts. -/
theorem made_lines (h : Lines done ts) :
    Made done.reverse.flatten (ts.reverse.flatMap (· ++ ['\n'])) := by
  induction h with
  | nil => exact made_nil
  | @cons d t done ts hd _ ih =>
    obtain ⟨l, rfl, hl⟩ := hd
    have hboth := ih.append (hl.made.append made_newline)
    simpa using hboth

/-- Without the newlines at the end, they say their texts without those. -/
theorem made_stripEnd (h : Lines done ts) :
    Made (Text.stripEnd (· == '\n') done.reverse.flatten)
      (Text.stripEnd (· == '\n') (ts.reverse.flatMap (· ++ ['\n']))) := by
  induction h with
  | nil => exact made_nil
  | @cons d t done ts hd hrest ih =>
    obtain ⟨l, rfl, hl⟩ := hd
    have hmarkup :
        ((l ++ ['\n']) :: done).reverse.flatten = done.reverse.flatten ++ l ++ ['\n'] := by
      simp
    have htext : (t :: ts).reverse.flatMap (· ++ ['\n']) =
        ts.reverse.flatMap (· ++ ['\n']) ++ t ++ ['\n'] := by
      simp
    rw [hmarkup, htext, Text.stripEnd_newline, Text.stripEnd_newline]
    by_cases ht : t = []
    · rw [hl.empty_iff.2 ht, ht, List.append_nil, List.append_nil]
      exact ih
    · have hline : ∀ {s : List Char}, '\n' ∉ s → ∀ c ∈ s, (c == '\n') = false := by
        intro s hs c hc
        refine beq_eq_false_iff_ne.2 ?_
        rintro rfl
        exact hs hc
      rw [Text.stripEnd_of_getLast (mt hl.empty_iff.1 ht) (hline hl.markup_line),
        Text.stripEnd_of_getLast ht (hline hl.text_line)]
      exact (made_lines hrest).append hl.made

/-- **Highlighted code is made of pieces that say the text of the tokens,** without the newlines at
its end. -/
theorem ofTokens_made (tokens : List Token) :
    Made (ofTokens tokens).toList (Text.stripEnd (· == '\n') (Token.textOf tokens)) := by
  have hstart : ({} : State).Holds [] := ⟨[], [], .nil, .empty rfl, rfl⟩
  obtain ⟨ts, t, hdone, hline, htext⟩ := State.holds_foldl_write tokens hstart
  rw [List.nil_append] at htext
  rw [ofTokens, String.toList_ofList, lines, State.finish, htext]
  by_cases ht : t = []
  · rw [if_pos (by simp [hline.eq_nil_iff.2 ht]), ht, List.append_nil]
    exact made_stripEnd hdone
  · have hclosed : Lines
        (((tokens.foldl State.write {}).line ++ closer (tokens.foldl State.write {}).span ++
          ['\n']) :: (tokens.foldl State.write {}).done) (t :: ts) :=
      .cons ⟨_, rfl, hline.closed ht⟩ hdone
    have hmore : Text.stripEnd (· == '\n') (ts.reverse.flatMap (· ++ ['\n']) ++ t) =
        Text.stripEnd (· == '\n') ((t :: ts).reverse.flatMap (· ++ ['\n'])) := by
      have hend : (t :: ts).reverse.flatMap (· ++ ['\n']) =
          ts.reverse.flatMap (· ++ ['\n']) ++ t ++ ['\n'] := by
        simp
      rw [hend, Text.stripEnd_newline]
    rw [if_neg (by simp [mt hline.eq_nil_iff.1 ht]), hmore]
    exact made_stripEnd hclosed

/-! ## Taking the tags out -/

/-- Markup without its tags; `inTag` says that a tag has begun. -/
def withoutTags : (inTag : Bool) → List Char → List Char
  | _, [] => []
  | false, c :: rest => if c = '<' then withoutTags true rest else c :: withoutTags false rest
  | true, c :: rest => withoutTags (c != '>') rest

/-- Markup without `<` has no tags. -/
theorem withoutTags_append {w : List Char} (hw : '<' ∉ w) (rest : List Char) :
    withoutTags false (w ++ rest) = w ++ withoutTags false rest := by
  induction w with
  | nil => rfl
  | cons c w ih =>
    obtain ⟨hc, hw⟩ := not_or.1 fun h => hw (List.mem_cons.2 h)
    rw [List.cons_append, withoutTags, if_neg (Ne.symm hc), ih hw, List.cons_append]

/-- A tag goes on to the next `>`. -/
theorem withoutTags_tag {w : List Char} (hw : '>' ∉ w) (rest : List Char) :
    withoutTags false ('<' :: w ++ '>' :: rest) = withoutTags false rest := by
  have hrest : withoutTags true (w ++ '>' :: rest) = withoutTags false rest := by
    induction w with
    | nil => rfl
    | cons c w ih =>
      obtain ⟨hc, hw⟩ := not_or.1 fun h => hw (List.mem_cons.2 h)
      have hopen : (c != '>') = true := by simpa using Ne.symm hc
      rw [List.cons_append, withoutTags, hopen, ih hw]
  rw [List.cons_append, withoutTags, if_pos rfl, hrest]

theorem withoutTags_openingTag {cls : String} (h : IsKindClass cls) (rest : List Char) :
    withoutTags false (Piece.openingTag cls ++ rest) = withoutTags false rest := by
  have hclass := h.not_mem (d := '>') (by decide)
  have hopening : '>' ∉ "span class=\"".toList ++ cls.toList ++ ['"'] := by simp [hclass]
  rw [← withoutTags_tag hopening rest, Piece.openingTag]
  simp only [List.append_assoc, List.cons_append, List.nil_append]

theorem withoutTags_closingTag (rest : List Char) :
    withoutTags false (Piece.closingTag ++ rest) = withoutTags false rest := by
  rw [← withoutTags_tag (by decide : '>' ∉ "/span".toList) rest, Piece.closingTag]
  simp only [List.append_assoc, List.cons_append, List.nil_append]

theorem withoutTags_markup {p : Piece} (hp : p.IsProper) (rest : List Char) :
    withoutTags false (p.markup ++ rest) = Text.escapeText p.chars ++ withoutTags false rest := by
  have htext : ∀ s, '<' ∉ Text.escapeText s := escape_escapeChar.bracket_not_mem
  cases p with
  | text s => exact withoutTags_append (htext s) rest
  | span cls s =>
    rw [Piece.markup, List.append_assoc, List.append_assoc, withoutTags_openingTag hp.1,
      withoutTags_append (htext s), withoutTags_closingTag]
    rfl

/-- What is left of pieces without their tags is their text, escaped. -/
theorem withoutTags_flatMap {pieces : List Piece} (h : ∀ p ∈ pieces, p.IsProper) :
    withoutTags false (pieces.flatMap Piece.markup) =
      Text.escapeText (pieces.flatMap Piece.chars) := by
  induction pieces with
  | nil => rfl
  | cons p pieces ih =>
    rw [List.flatMap_cons, withoutTags_markup (h p List.mem_cons_self),
      ih fun q hq => h q (List.mem_cons_of_mem _ hq), List.flatMap_cons]
    exact List.flatMap_append.symm

/-- **Markup that is made of pieces reads back** as their text once its tags are taken out. -/
theorem Made.decode_withoutTags {w s : List Char} (h : Made w s) :
    Reference.decode false (withoutTags false w) = s := by
  obtain ⟨pieces, hpieces, rfl, rfl⟩ := h
  rw [withoutTags_flatMap hpieces]
  exact escape_escapeChar.decode_flatMap false _

end Spans
end DocHighlighter
