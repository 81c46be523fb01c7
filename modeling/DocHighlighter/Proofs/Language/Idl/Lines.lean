/-
# Line by line

Comments, documentation and literals end with their line, so one would expect a text to be read line
by line.  But the blanks behind an `@` or a `:` may be newlines: where a line ends in such a sign
with nothing behind it, what is read there goes on over the newline (`LeftOpen`).

| line left open | what comes behind it is read alone as in the text |
|---|---|
| by an `@` | if it is empty, or begins with an `@` and more than blanks on the same line |
| by a `:` | if the first character that is no blank is no word character |

A text without brackets, braces and backticks gets the kinds that its lines get alone exactly if this
holds of every line that is left open, and no later line begins with a byte order mark, which is
dropped where a text begins (`lineByLine_iff`).
-/

import DocHighlighter.Proofs.Engine.Coherent
import DocHighlighter.Proofs.Highlight.Lossless
import DocHighlighter.Proofs.Language.Idl.Plain
import DocHighlighter.Proofs.Text.Lines

namespace DocHighlighter

open Text (isBlank isWord isDigit)

namespace Language
namespace Idl

/-! ## Lines that are left open -/

/-- What a line that is read alone is in, when only blanks and its newline are left. -/
inductive LeftOpen where
  /-- Nothing, or a comment, documentation or a literal with something in it. -/
  | nothing
  /-- Documentation that has only blanks so far. -/
  | documentation
  /-- A literal that has no value so far. -/
  | value
  deriving DecidableEq

/-- What a line is left in, which is read from outside of all spans or from inside a literal. -/
def leftOpen (literal : Bool) : List Char → LeftOpen
  | [] => .nothing
  | a :: rest =>
    if a = '@' then if rest.all isBlank then .documentation else .nothing
    else if literal then leftOpen true rest
    else if a = '/' ∧ rest.head? = some '/' then .nothing
    else if a = ':' then
      if rest.all isBlank then .value
      else leftOpen ((rest.dropWhile isBlank).head?.any isWord) rest
    else leftOpen false rest

/-- Whether what comes behind a line is read as if it stood alone, and the line too. -/
def keeps (more : List Char) : LeftOpen → Bool
  | .nothing => true
  | .documentation =>
    more.isEmpty ||
      (more.head? == some '@' && !(more.tail.takeWhile (· != '\n')).all isBlank)
  | .value => !(more.dropWhile isBlank).head?.any isWord

/-- Whether each of some lines is read alone as in the text. -/
def apart : List (List Char) → Bool
  | [] => true
  | line :: lines => keeps lines.flatten (leftOpen false (line.takeWhile (· != '\n'))) && apart lines

section Reading

variable {a : Char} {body rest left more : List Char} {p : Char → Bool}

/-! ## Up to the end of a line -/

theorem dropWhile_line (hp : p '\n' = false) (body more : List Char) :
    (body ++ '\n' :: more).dropWhile p = body.dropWhile p ++ '\n' :: more := by
  induction body with
  | nil => exact List.dropWhile_cons_of_neg (by simp [hp])
  | cons b body ih =>
    cases hb : p b with
    | true => rw [List.cons_append, List.dropWhile_cons_of_pos hb, List.dropWhile_cons_of_pos hb, ih]
    | false =>
      rw [List.cons_append, List.dropWhile_cons_of_neg (by simp [hb]),
        List.dropWhile_cons_of_neg (by simp [hb]), List.cons_append]

theorem takeWhile_line (hp : p '\n' = false) (body more : List Char) :
    (body ++ '\n' :: more).takeWhile p = body.takeWhile p := by
  induction body with
  | nil => exact List.takeWhile_cons_of_neg (by simp [hp])
  | cons b body ih =>
    cases hb : p b with
    | true => rw [List.cons_append, List.takeWhile_cons_of_pos hb, List.takeWhile_cons_of_pos hb, ih]
    | false =>
      rw [List.cons_append, List.takeWhile_cons_of_neg (by simp [hb]),
        List.takeWhile_cons_of_neg (by simp [hb])]

/-- Characters are dropped from a part of a text that has others. -/
theorem dropWhile_append_of_not_all (h : body.all p = false) (more : List Char) :
    (body ++ more).dropWhile p = body.dropWhile p ++ more := by
  induction body with
  | nil => cases h
  | cons b body ih =>
    cases hb : p b with
    | true =>
      rw [List.all_cons, hb, Bool.true_and] at h
      rw [List.cons_append, List.dropWhile_cons_of_pos hb, List.dropWhile_cons_of_pos hb, ih h]
    | false =>
      rw [List.cons_append, List.dropWhile_cons_of_neg (by simp [hb]),
        List.dropWhile_cons_of_neg (by simp [hb]), List.cons_append]

theorem dropWhile_append_of_all (h : body.all p = true) (more : List Char) :
    (body ++ more).dropWhile p = more.dropWhile p :=
  List.dropWhile_append_of_pos (List.all_eq_true.1 h)

theorem head?_dropWhile_append (h : body.all p = false) (more : List Char) :
    ((body ++ more).dropWhile p).head? = (body.dropWhile p).head? := by
  rw [dropWhile_append_of_not_all h]
  refine List.head?_append_of_ne_nil _ fun hnil => ?_
  rw [List.dropWhile_eq_nil_iff, ← List.all_eq_true, h] at hnil
  cases hnil

/-- The reading of a line, whatever comes behind it, up to a rest that is left of it. -/
def ReadsLine (body left : List Char) : Prop :=
  ∃ front : List Kind, front.length + left.length = body.length ∧
    ∀ more, colours (body ++ '\n' :: more) = front ++ colours (left ++ '\n' :: more)

theorem ReadsLine.refl (body : List Char) : ReadsLine body body :=
  ⟨[], Nat.zero_add _, fun _ => rfl⟩

/-- A passage that ends within the line. -/
theorem ReadsLine.cons (kind : Kind) (rest' : List Char)
    (hpassage : ∀ more, passage a (rest ++ '\n' :: more) = (kind, rest' ++ '\n' :: more))
    (hle : rest'.length ≤ rest.length) (h : ReadsLine rest' left) : ReadsLine (a :: rest) left := by
  obtain ⟨front, hlength, hfront⟩ := h
  refine ⟨List.replicate (rest.length + 1 - rest'.length) kind ++ front, ?_, fun more => ?_⟩
  · rw [List.length_append, List.length_replicate, List.length_cons]
    omega
  · have hcount : (rest ++ '\n' :: more).length + 1 - (rest' ++ '\n' :: more).length =
        rest.length + 1 - rest'.length := by
      simp only [List.length_append, List.length_cons]
      omega
    rw [List.cons_append, colours_cons, hpassage, hcount, hfront, List.append_assoc]

/-- What a line may have left when it is left open in some way. -/
def Leaves (left : List Char) : LeftOpen → Prop
  | .nothing => left.all isBlank = true
  | .documentation => ∃ blanks, blanks.all isBlank = true ∧ left = '@' :: blanks
  | .value => ∃ blanks, blanks.all isBlank = true ∧ left = ':' :: blanks

theorem dropWhile_newline (h : '\n' ∉ body) : body.dropWhile (· != '\n') = [] := by
  refine List.dropWhile_eq_nil_iff.2 fun b hb => ?_
  rw [bne_iff_ne]
  rintro rfl
  exact h hb

/-- Signs that open nothing can be left out in front. -/
theorem leftOpen_dropWhile (hp : ∀ b, p b = true → b ≠ '@' ∧ b ≠ '/' ∧ b ≠ ':') (body : List Char) :
    leftOpen false (body.dropWhile p) = leftOpen false body := by
  induction body with
  | nil => rfl
  | cons b body ih =>
    cases hb : p b with
    | true =>
      obtain ⟨hat, hslash, hcolon⟩ := hp b hb
      rw [List.dropWhile_cons_of_pos hb, ih, leftOpen, if_neg hat, if_neg Bool.false_ne_true,
        if_neg fun h => hslash h.1, if_neg hcolon]
    | false => rw [List.dropWhile_cons_of_neg (by simp [hb])]

/-- Inside of a literal nothing counts up to the sign of documentation. -/
theorem leftOpen_literal (hp : ∀ b, p b = true → b ≠ '@') (body : List Char) :
    leftOpen true (body.dropWhile p) = leftOpen true body := by
  induction body with
  | nil => rfl
  | cons b body ih =>
    cases hb : p b with
    | true => rw [List.dropWhile_cons_of_pos hb, ih, leftOpen, if_neg (hp b hb), if_pos rfl]
    | false => rw [List.dropWhile_cons_of_neg (by simp [hb])]

theorem leftOpen_of_head? (h : ∀ b ∈ body.head?, b = '@') :
    leftOpen true body = leftOpen false body := by
  cases body with
  | nil => rfl
  | cons b body => rw [h b rfl, leftOpen, leftOpen, if_pos rfl, if_pos rfl]

/-- Behind a literal a line goes on with documentation, or is over. -/
theorem leftOpen_value (hnewline : '\n' ∉ body) (hbracket : '[' ∉ body) :
    leftOpen false ((body.dropWhile isBlank).dropWhile fun b => !endsLiteral b) =
      leftOpen true body := by
  rw [← leftOpen_of_head? fun b hb => ?_, leftOpen_literal, leftOpen_literal]
  · rintro b hb rfl
    exact absurd hb (by decide)
  · rintro b hb rfl
    exact absurd hb (by decide)
  · have hends := List.head?_dropWhile_not (fun b => !endsLiteral b) (body.dropWhile isBlank)
    rw [Option.mem_def.1 hb] at hends
    have hsign : endsLiteral b = true := by simpa using hends
    have hmem : b ∈ body := ((List.dropWhile_sublist _).trans (List.dropWhile_sublist _)).subset
      (List.mem_of_mem_head? hb)
    simp only [endsLiteral, Bool.or_eq_true, beq_iff_eq] at hsign
    rcases hsign with (rfl | rfl) | rfl
    · exact absurd hmem hnewline
    · rfl
    · exact absurd hmem hbracket

theorem isBlank_ne_signs (b : Char) (h : isBlank b = true) : b ≠ '@' ∧ b ≠ '/' ∧ b ≠ ':' := by
  refine ⟨?_, ?_, ?_⟩ <;>
    · rintro rfl
      exact absurd h (by decide)

theorem isWord_ne_signs (b : Char) (h : isWord b = true) : b ≠ '@' ∧ b ≠ '/' ∧ b ≠ ':' := by
  refine ⟨?_, ?_, ?_⟩ <;>
    · rintro rfl
      exact absurd h (by decide)

/-- A line can be read up to what it leaves open. -/
def CanRead (body : List Char) : Prop :=
  ∃ left, ReadsLine body left ∧ Leaves left (leftOpen false body)

/-- A passage that ends within the line leaves it to what is left of the line. -/
theorem CanRead.cons (kind : Kind) {rest' : List Char}
    (hpassage : ∀ more, passage a (rest ++ '\n' :: more) = (kind, rest' ++ '\n' :: more))
    (hsuffix : rest' <:+ rest) (hopen : leftOpen false (a :: rest) = leftOpen false rest')
    (h : CanRead rest') : CanRead (a :: rest) := by
  obtain ⟨left, hreads, hleaves⟩ := h
  exact ⟨left, hreads.cons kind rest' hpassage hsuffix.length_le, hopen ▸ hleaves⟩

theorem canRead_nil : CanRead [] :=
  ⟨[], .refl [], rfl⟩

/-- A comment takes all the line. -/
theorem canRead_comment (hnewline : '\n' ∉ rest) (hhead : rest.head? = some '/') :
    CanRead ('/' :: rest) := by
  obtain ⟨tail, rfl⟩ := List.head?_eq_some_iff.1 hhead
  refine .cons .commentSingle (fun more => ?_) (List.nil_suffix) ?_ canRead_nil
  · rw [passage_comment rfl, dropWhile_line rfl, dropWhile_newline hnewline]
  · show leftOpen false ('/' :: '/' :: tail) = .nothing
    rw [leftOpen, if_neg (by decide), if_neg Bool.false_ne_true, if_pos ⟨rfl, rfl⟩]

/-- Documentation takes all the line, or is left open. -/
theorem canRead_documentation (hnewline : '\n' ∉ rest) : CanRead ('@' :: rest) := by
  have hopen : leftOpen false ('@' :: rest) =
      if rest.all isBlank then .documentation else .nothing := by
    rw [leftOpen, if_pos rfl]
  cases hall : rest.all isBlank with
  | true =>
    rw [hall, if_pos rfl] at hopen
    exact ⟨_, .refl _, hopen ▸ ⟨rest, hall, rfl⟩⟩
  | false =>
    rw [hall, if_neg Bool.false_ne_true] at hopen
    refine .cons .stringDoc (fun more => ?_) List.nil_suffix hopen canRead_nil
    rw [passage_documentation, dropWhile_append_of_not_all hall, dropWhile_line rfl,
      dropWhile_newline fun hmem => hnewline ((List.dropWhile_sublist _).subset hmem)]

/-- A literal is read to the sign that ends it, or is left open, or the sign opens none. -/
theorem canRead_value (hnewline : '\n' ∉ rest) (hbracket : '[' ∉ rest)
    (hlater : ∀ rest', rest' <:+ rest → CanRead rest') : CanRead (':' :: rest) := by
  have hopen : leftOpen false (':' :: rest) =
      if rest.all isBlank then .value
      else leftOpen ((rest.dropWhile isBlank).head?.any isWord) rest := by
    rw [leftOpen, if_neg (by decide), if_neg Bool.false_ne_true,
      if_neg fun hslash => absurd hslash.1 (by decide), if_pos rfl]
  cases hall : rest.all isBlank with
  | true =>
    rw [hall, if_pos rfl] at hopen
    exact ⟨_, .refl _, hopen ▸ ⟨rest, hall, rfl⟩⟩
  | false =>
    rw [hall, if_neg Bool.false_ne_true] at hopen
    have hhead := head?_dropWhile_append hall
    cases hword : (rest.dropWhile isBlank).head?.any isWord with
    | true =>
      have hsuffix := (List.dropWhile_suffix (l := rest.dropWhile isBlank)
        fun b => !endsLiteral b).trans (List.dropWhile_suffix isBlank)
      rw [hword, ← leftOpen_value hnewline hbracket] at hopen
      refine .cons (if (rest.dropWhile isBlank).head?.any isDigit then .numberInteger
        else .nameConstant) (fun more => ?_) hsuffix hopen (hlater _ hsuffix)
      rw [passage_value (by rw [hhead, hword]), hhead, dropWhile_append_of_not_all hall,
        dropWhile_line (by decide)]
    | false =>
      rw [hword] at hopen
      refine .cons .text (fun more => ?_) (List.suffix_refl rest) hopen (hlater rest
        (List.suffix_refl rest))
      refine passage_other (fun hslash => absurd hslash.1 (by decide)) (by decide)
        (fun hvalue => ?_) (by decide) (by decide)
      rw [hhead, hword] at hvalue
      exact Bool.false_ne_true hvalue.2

/-- Signs that open nothing are not in the way. -/
theorem leftOpen_cons (hslash : ¬ (a = '/' ∧ rest.head? = some '/')) (hat : a ≠ '@')
    (hcolon : a ≠ ':') : leftOpen false (a :: rest) = leftOpen false rest := by
  rw [leftOpen, if_neg hat, if_neg Bool.false_ne_true, if_neg hslash, if_neg hcolon]

/-- Blanks are read, or stand at the end of the line. -/
theorem canRead_blank (ha : isBlank a = true)
    (hlater : ∀ rest', rest' <:+ rest → CanRead rest') : CanRead (a :: rest) := by
  obtain ⟨hat, hslash, hcolon⟩ := isBlank_ne_signs a ha
  have hopen : leftOpen false (a :: rest) = leftOpen false rest :=
    leftOpen_cons (fun h => hslash h.1) hat hcolon
  rw [← leftOpen_dropWhile isBlank_ne_signs rest] at hopen
  cases hall : rest.all isBlank with
  | true =>
    rw [List.dropWhile_eq_nil_iff.2 (List.all_eq_true.1 hall), leftOpen] at hopen
    refine ⟨a :: rest, .refl _, hopen ▸ ?_⟩
    show (a :: rest).all isBlank = true
    rw [List.all_cons, ha, hall]
    rfl
  | false =>
    have hsuffix := List.dropWhile_suffix (l := rest) isBlank
    refine .cons .whitespace (fun more => ?_) hsuffix hopen (hlater _ hsuffix)
    rw [passage_blank ha, dropWhile_append_of_not_all hall]

theorem canRead_word (ha : isWord a = true)
    (hlater : ∀ rest', rest' <:+ rest → CanRead rest') : CanRead (a :: rest) := by
  obtain ⟨hat, hslash, hcolon⟩ := isWord_ne_signs a ha
  have hopen : leftOpen false (a :: rest) = leftOpen false rest :=
    leftOpen_cons (fun h => hslash h.1) hat hcolon
  rw [← leftOpen_dropWhile isWord_ne_signs rest] at hopen
  have hsuffix := List.dropWhile_suffix (l := rest) isWord
  refine .cons (wordKind (a :: rest.takeWhile isWord)) (fun more => ?_) hsuffix hopen
    (hlater _ hsuffix)
  rw [passage_word ha, takeWhile_line (by decide), dropWhile_line (by decide)]

/-- **A line is read alike whatever comes behind it,** up to the blanks at its end, and to the bare
sign in front of them if it is left open there: by induction on the length of the line. -/
theorem canRead (body : List Char) (hnewline : '\n' ∉ body) (hbracket : '[' ∉ body) :
    CanRead body := by
  induction hn : body.length using Nat.strong_induction_on generalizing body with
  | h n ih =>
    cases body with
    | nil => exact canRead_nil
    | cons a rest =>
      have hlater : ∀ rest', rest' <:+ rest → CanRead rest' := fun rest' hsuffix =>
        ih rest'.length (by rw [← hn, List.length_cons]; have := hsuffix.length_le; omega) rest'
          (fun hmem => hnewline (List.mem_cons_of_mem _ (hsuffix.subset hmem)))
          (fun hmem => hbracket (List.mem_cons_of_mem _ (hsuffix.subset hmem))) rfl
      have hnewline' : '\n' ∉ rest := fun hmem => hnewline (List.mem_cons_of_mem _ hmem)
      have hbracket' : '[' ∉ rest := fun hmem => hbracket (List.mem_cons_of_mem _ hmem)
      by_cases hslash : a = '/' ∧ rest.head? = some '/'
      · obtain ⟨rfl, hhead⟩ := hslash
        exact canRead_comment hnewline' hhead
      by_cases hat : a = '@'
      · exact hat ▸ canRead_documentation hnewline'
      by_cases hcolon : a = ':'
      · exact hcolon ▸ canRead_value hnewline' hbracket' hlater
      cases hblank : isBlank a with
      | true => exact canRead_blank hblank hlater
      | false =>
        cases hword : isWord a with
        | true => exact canRead_word hword hlater
        | false =>
          refine .cons .text (fun more => ?_) (List.suffix_refl rest)
            (leftOpen_cons hslash hat hcolon) (hlater rest (List.suffix_refl rest))
          refine passage_other (fun hslash' => hslash ⟨hslash'.1, ?_⟩) hat
            (fun hvalue => hcolon hvalue.1) hblank hword
          cases rest with
          | nil => exact absurd hslash'.2 (by simp)
          | cons b rest => exact hslash'.2

/-! ## Over the end of a line -/

/-- Blanks in front of a text are read as blanks. -/
theorem colours_eq_blanks (text : List Char) :
    colours text = List.replicate (text.length - (text.dropWhile isBlank).length) .whitespace ++
      colours (text.dropWhile isBlank) := by
  cases text with
  | nil => rfl
  | cons a rest =>
    cases ha : isBlank a with
    | true =>
      rw [List.dropWhile_cons_of_pos ha, colours_cons, passage_blank ha, List.length_cons]
    | false =>
      rw [List.dropWhile_cons_of_neg (by simp [ha]), Nat.sub_self, List.replicate_zero,
        List.nil_append]

theorem colours_append_blanks {blanks : List Char} (h : blanks.all isBlank = true)
    (text : List Char) :
    colours (blanks ++ text) = List.replicate blanks.length .whitespace ++ colours text := by
  have hle := (List.dropWhile_suffix (l := text) isBlank).length_le
  have hcount : (blanks ++ text).length - (text.dropWhile isBlank).length =
      blanks.length + (text.length - (text.dropWhile isBlank).length) := by
    rw [List.length_append]
    omega
  rw [colours_eq_blanks, dropWhile_append_of_all h, hcount, ← List.replicate_append_replicate,
    List.append_assoc, ← colours_eq_blanks]

/-- The first character of a passage has the kind of the passage. -/
theorem head?_colours_cons (a : Char) (rest : List Char) :
    (colours (a :: rest)).head? = some (passage a rest).1 := by
  have hle := (suffix_passage a rest).length_le
  have hcount : rest.length + 1 - (passage a rest).2.length =
      rest.length - (passage a rest).2.length + 1 := by
    omega
  rw [colours_cons, hcount, List.replicate_succ, List.cons_append, List.head?_cons]

/-- Only documentation is read as such. -/
theorem eq_at_of_passage {a : Char} {rest : List Char} (h : (passage a rest).1 = .stringDoc) :
    a = '@' := by
  by_contra hat
  unfold passage wordKind at h
  dsimp only at h
  repeat' split at h
  all_goals contradiction

/-- A bare `@` at the end of a line takes the newline, the blanks behind it, and all the line that
comes then. -/
theorem colours_bareAt {blanks : List Char} (h : blanks.all isBlank = true) (more : List Char) :
    colours ('@' :: blanks ++ '\n' :: more) =
      List.replicate (blanks.length + 2) .stringDoc ++
        (List.replicate
            (more.length - ((more.dropWhile isBlank).dropWhile (· != '\n')).length) .stringDoc ++
          colours ((more.dropWhile isBlank).dropWhile (· != '\n'))) := by
  have hle := ((List.dropWhile_suffix (l := more.dropWhile isBlank) (· != '\n')).trans
    (List.dropWhile_suffix isBlank)).length_le
  have hblank : ('\n' :: more).dropWhile isBlank = more.dropWhile isBlank :=
    List.dropWhile_cons_of_pos (by decide)
  rw [List.cons_append, colours_cons, passage_documentation, dropWhile_append_of_all h, hblank,
    ← List.append_assoc, List.replicate_append_replicate]
  congr 2
  rw [List.length_append, List.length_cons]
  dsimp only
  omega

/-- A bare `:` is text, if no word comes behind it. -/
theorem colours_bareColon {blanks : List Char} (h : blanks.all isBlank = true) {more : List Char}
    (hmore : (more.dropWhile isBlank).head?.any isWord = false) :
    colours (':' :: blanks ++ '\n' :: more) =
      .text :: (List.replicate (blanks.length + 1) .whitespace ++ colours more) := by
  have hblanks : (blanks ++ ['\n']).all isBlank = true := by
    rw [List.all_append, h]
    decide
  have hvalue : ((blanks ++ '\n' :: more).dropWhile isBlank).head?.any isWord = false := by
    rw [dropWhile_append_of_all h, List.dropWhile_cons_of_pos (by decide), hmore]
  have hpassage : passage ':' (blanks ++ '\n' :: more) = (.text, blanks ++ '\n' :: more) := by
    refine passage_other (fun hslash => absurd hslash.1 (by decide)) (by decide)
      (fun hword => ?_) (by decide) (by decide)
    rw [hvalue] at hword
    exact Bool.false_ne_true hword.2
  rw [List.cons_append, colours_cons, hpassage, Nat.add_sub_cancel_left, List.replicate_one,
    List.singleton_append, List.append_cons, colours_append_blanks hblanks, List.length_append,
    List.length_singleton]

/-- Documentation that has more than blanks on its first line ends with that line. -/
theorem dropWhile_blanks_of_line {text : List Char}
    (h : (text.takeWhile (· != '\n')).all isBlank = false) :
    (text.dropWhile isBlank).dropWhile (· != '\n') = text.dropWhile (· != '\n') := by
  induction text with
  | nil => cases h
  | cons a text ih =>
    cases ha : isBlank a with
    | false => rw [List.dropWhile_cons_of_neg (by simp [ha])]
    | true =>
      cases hnewline : a != '\n' with
      | false =>
        rw [List.takeWhile_cons_of_neg (by simp [hnewline])] at h
        cases h
      | true =>
        rw [List.takeWhile_cons_of_pos (by exact hnewline), List.all_cons, ha, Bool.true_and] at h
        rw [List.dropWhile_cons_of_pos ha, ih h,
          List.dropWhile_cons_of_pos (p := (· != '\n')) (by exact hnewline)]

/-- What a line leaves open is read as it stands alone, and so is what comes behind it, if that
keeps it so. -/
theorem colours_append_of_leaves {opened : LeftOpen} (hleaves : Leaves left opened)
    (hkeeps : keeps more opened = true) :
    colours (left ++ '\n' :: more) = colours (left ++ ['\n']) ++ colours more := by
  cases opened with
  | nothing =>
    have hblanks : (left ++ ['\n']).all isBlank = true := by
      rw [List.all_append, show left.all isBlank = true from hleaves]
      decide
    have hline := colours_append_blanks hblanks []
    rw [List.append_nil, colours_nil, List.append_nil] at hline
    rw [List.append_cons, colours_append_blanks hblanks, hline]
  | value =>
    obtain ⟨blanks, hblanks, rfl⟩ := hleaves
    rw [keeps, Bool.not_eq_true'] at hkeeps
    have hline : colours (':' :: blanks ++ ['\n']) = _ := colours_bareColon hblanks rfl
    rw [colours_bareColon hblanks hkeeps, hline, colours_nil, List.append_nil, List.cons_append]
  | documentation =>
    obtain ⟨blanks, hblanks, rfl⟩ := hleaves
    have hline := colours_bareAt hblanks []
    rw [colours_bareAt hblanks, hline]
    rw [keeps, Bool.or_eq_true, Bool.and_eq_true, List.isEmpty_iff, beq_iff_eq,
      Bool.not_eq_true'] at hkeeps
    rcases hkeeps with rfl | ⟨hhead, hblank⟩
    · simp [colours_nil]
    · obtain ⟨rest, rfl⟩ := List.head?_eq_some_iff.1 hhead
      rw [List.tail_cons] at hblank
      have hdrop : (('@' :: rest).dropWhile isBlank).dropWhile (· != '\n') =
          rest.dropWhile (· != '\n') := rfl
      rw [hdrop, colours_cons '@' rest, passage_documentation, dropWhile_blanks_of_line hblank]
      simp [colours_nil]

/-- What comes behind a line is empty, or begins with a line whose characters get the kinds that they
get alone. -/
def BeginsAlone (more : List Char) (kinds : List Kind) : Prop :=
  more = [] ∨ ∃ body rest kinds', '\n' ∉ body ∧ more = body ++ '\n' :: rest ∧
    kinds = colours (body ++ ['\n']) ++ kinds'

/-- Documentation that goes on behind a newline takes the first character there. -/
theorem length_left_le (a : Char) (rest : List Char) :
    (((a :: rest).dropWhile isBlank).dropWhile (· != '\n')).length ≤ rest.length := by
  cases ha : isBlank a with
  | true =>
    rw [List.dropWhile_cons_of_pos ha]
    exact ((List.dropWhile_suffix _).trans (List.dropWhile_suffix _)).length_le
  | false =>
    have hnewline : (a != '\n') = true := by
      rw [bne_iff_ne]
      rintro rfl
      exact absurd ha (by decide)
    rw [List.dropWhile_cons_of_neg (by simp [ha]),
      List.dropWhile_cons_of_pos (p := (· != '\n')) (by exact hnewline)]
    exact (List.dropWhile_suffix _).length_le

/-- Behind a bare `@` only documentation with something in its line is read as it is read alone. -/
theorem keeps_documentation {kinds : List Kind} (halone : BeginsAlone more kinds)
    (h : kinds = List.replicate
        (more.length - ((more.dropWhile isBlank).dropWhile (· != '\n')).length) .stringDoc ++
      colours ((more.dropWhile isBlank).dropWhile (· != '\n'))) :
    keeps more .documentation = true := by
  obtain rfl | ⟨body, rest, kinds', hnewline, rfl, rfl⟩ := halone
  · rfl
  -- The first character is documentation in the text, so it is in its own line.
  have hat : body.head? = some '@' := by
    obtain ⟨a, line, hline⟩ : ∃ a line, body ++ ['\n'] = a :: line :=
      List.exists_cons_of_ne_nil (by simp)
    have hmore : body ++ '\n' :: rest = a :: (line ++ rest) := by
      rw [List.append_cons, hline, List.cons_append]
    have hle := length_left_le a (line ++ rest)
    rw [hmore, hline, List.length_cons, Nat.succ_sub hle, List.replicate_succ] at h
    have hhead := congrArg List.head? h
    rw [List.cons_append, List.head?_cons, List.head?_append, head?_colours_cons] at hhead
    have ha : a = '@' := eq_at_of_passage (Option.some.inj hhead)
    cases body with
    | nil =>
      obtain rfl : '\n' = a := (List.cons.inj hline).1
      exact absurd ha (by decide)
    | cons b body =>
      obtain rfl : b = a := (List.cons.inj hline).1
      rw [ha, List.head?_cons]
  obtain ⟨body, rfl⟩ := List.head?_eq_some_iff.1 hat
  have hnewline' : '\n' ∉ body := fun hmem => hnewline (List.mem_cons_of_mem _ hmem)
  have htake : (body ++ '\n' :: rest).takeWhile (· != '\n') = body := by
    rw [takeWhile_line rfl]
    refine List.takeWhile_eq_self_iff.2 fun b hb => ?_
    rw [bne_iff_ne]
    rintro rfl
    exact hnewline' hb
  cases hall : body.all isBlank with
  | false => simp [keeps, htake, hall]
  | true =>
    -- Only blanks: the newline behind them is documentation in its line, and a blank in the text.
    have hdrop : (('@' :: body ++ '\n' :: rest).dropWhile isBlank).dropWhile (· != '\n') =
        '\n' :: rest := by
      show (body ++ '\n' :: rest).dropWhile (· != '\n') = _
      rw [dropWhile_line rfl, dropWhile_newline hnewline', List.nil_append]
    have hcount : ('@' :: body ++ '\n' :: rest).length - ('\n' :: rest).length =
        body.length + 1 := by
      simp only [List.cons_append, List.length_cons, List.length_append]
      omega
    rw [hdrop, hcount, colours_bareAt hall, ← List.replicate_append_replicate (n := body.length + 1)
      (m := 1), List.append_assoc, List.append_assoc] at h
    have hhead := congrArg List.head? (List.append_cancel_left h)
    rw [head?_colours_cons, passage_blank (by decide)] at hhead
    have hkind : Kind.stringDoc = .whitespace := Option.some.inj hhead
    exact absurd hkind (by decide)

/-- Behind a line that is left open, nothing else is read as it is read alone. -/
theorem keeps_of_leaves {opened : LeftOpen} {kinds : List Kind} (hleaves : Leaves left opened)
    (halone : BeginsAlone more kinds)
    (h : colours (left ++ '\n' :: more) = colours (left ++ ['\n']) ++ kinds) :
    keeps more opened = true := by
  cases opened with
  | nothing => rfl
  | value =>
    obtain ⟨blanks, hblanks, rfl⟩ := hleaves
    cases hword : (more.dropWhile isBlank).head?.any isWord with
    | false => rw [keeps, hword]; rfl
    | true =>
      have hline : colours (':' :: blanks ++ ['\n']) = _ := colours_bareColon hblanks rfl
      have hvalue : ((blanks ++ '\n' :: more).dropWhile isBlank).head?.any isWord = true := by
        rw [dropWhile_append_of_all hblanks, List.dropWhile_cons_of_pos (by decide), hword]
      rw [hline, List.cons_append] at h
      have hhead := congrArg List.head? h
      rw [head?_colours_cons, passage_value hvalue, List.cons_append, List.head?_cons] at hhead
      split at hhead
      · have hkind : Kind.numberInteger = .text := Option.some.inj hhead
        exact absurd hkind (by decide)
      · have hkind : Kind.nameConstant = .text := Option.some.inj hhead
        exact absurd hkind (by decide)
  | documentation =>
    obtain ⟨blanks, hblanks, rfl⟩ := hleaves
    have hline := colours_bareAt hblanks []
    rw [List.dropWhile_nil, List.dropWhile_nil, colours_nil, List.append_nil, List.length_nil,
      Nat.sub_self, List.replicate_zero, List.append_nil] at hline
    rw [colours_bareAt hblanks, hline] at h
    exact keeps_documentation halone (List.append_cancel_left h).symm

/-- **A line and what comes behind it** are read as each of them alone exactly if what comes behind
keeps it so. -/
theorem colours_append_iff {kinds : List Kind} (hnewline : '\n' ∉ body) (hbracket : '[' ∉ body)
    (halone : BeginsAlone more kinds) :
    colours (body ++ '\n' :: more) = colours (body ++ ['\n']) ++ kinds ↔
      keeps more (leftOpen false body) = true ∧ colours more = kinds := by
  obtain ⟨left, ⟨front, -, hfront⟩, hleaves⟩ := canRead body hnewline hbracket
  rw [hfront more, hfront [], List.append_assoc, List.append_cancel_left_eq]
  constructor
  · intro h
    have hkeeps := keeps_of_leaves hleaves halone h
    rw [colours_append_of_leaves hleaves hkeeps] at h
    exact ⟨hkeeps, List.append_cancel_left h⟩
  · rintro ⟨hkeeps, rfl⟩
    exact colours_append_of_leaves hleaves hkeeps

end Reading

/-! ## All lines of a text -/

section Lines

open Text (IsLine)

variable {line : List Char} {lines : List (List Char)}

/-- Behind a line stands nothing, or a line that begins what is read of the lines alone. -/
theorem beginsAlone_flatten (hlines : ∀ line ∈ lines, IsLine line) :
    BeginsAlone lines.flatten (lines.map colours).flatten := by
  cases lines with
  | nil => exact .inl rfl
  | cons line lines =>
    obtain ⟨body, rfl, hbody⟩ := hlines line List.mem_cons_self
    exact .inr ⟨body, lines.flatten, (lines.map colours).flatten, hbody, by simp, by simp⟩

/-- Lines are read as each of them alone exactly if each line that is left open has what keeps it so
behind it: by induction on the lines, from the last one on. -/
theorem colours_flatten_iff (hlines : ∀ line ∈ lines, IsLine line ∧ '[' ∉ line) :
    colours lines.flatten = (lines.map colours).flatten ↔ apart lines = true := by
  induction lines with
  | nil => simp [apart, colours_nil]
  | cons line lines ih =>
    obtain ⟨hline, hbracket⟩ := hlines line List.mem_cons_self
    have hlater := fun line' hmem => hlines line' (List.mem_cons_of_mem line hmem)
    have htake : line.takeWhile (· != '\n') ++ ['\n'] = line := hline.takeWhile_append
    have hnewline : '\n' ∉ line.takeWhile (· != '\n') := fun hmem =>
      absurd (List.mem_takeWhile_imp hmem) (by decide)
    have hopened := colours_append_iff hnewline
      (fun hmem => hbracket ((List.takeWhile_subset _) hmem))
      (beginsAlone_flatten fun line' hmem => (hlater line' hmem).1)
    rw [List.append_cons, htake] at hopened
    rw [List.map_cons, List.flatten_cons, List.flatten_cons, hopened, ih hlater, apart,
      Bool.and_eq_true]

/-- A byte order mark leaves nothing open. -/
theorem leftOpen_withoutMark (line : List Char) :
    leftOpen false ((withoutMark line).takeWhile (· != '\n')) =
      leftOpen false (line.takeWhile (· != '\n')) := by
  cases line with
  | nil => rfl
  | cons a rest =>
    by_cases ha : a = '\ufeff'
    · subst ha
      rw [List.takeWhile_cons_of_pos (by decide), leftOpen_cons (by simp) (by decide) (by decide)]
      rfl
    · rw [withoutMark_cons ha]

theorem apart_withoutMark (line : List Char) (lines : List (List Char)) :
    apart (withoutMark line :: lines) = apart (line :: lines) := by
  rw [apart, apart, leftOpen_withoutMark]

/-- Each line of a text is read alone as in the text: those that are left open have what keeps them
so behind them, and only the first may begin with a byte order mark. -/
structure LinesApart (text : List Char) : Prop where
  unmarked : ∀ line ∈ (Text.lines text).tail, line.head? ≠ some '\ufeff'
  apart : apart (Text.lines text) = true

/-- The byte order mark that each line loses on its own must not be missed in the text. -/
theorem colours_withoutMark_iff (hline : IsLine line) (hbracket : '[' ∉ line)
    (hlines : ∀ line' ∈ lines, IsLine line' ∧ '[' ∉ line') :
    colours (withoutMark (line :: lines).flatten) =
        ((line :: lines).map fun line' => colours (withoutMark line')).flatten ↔
      (∀ line' ∈ lines, line'.head? ≠ some '\ufeff') ∧ apart (line :: lines) = true := by
  have hmark : '[' ∉ withoutMark line := fun hmem => hbracket (mem_of_mem_withoutMark hmem)
  have hall := colours_flatten_iff (List.forall_mem_cons.2 ⟨⟨hline.withoutMark, hmark⟩, hlines⟩)
  rw [List.flatten_cons, List.map_cons, List.flatten_cons, apart_withoutMark] at hall
  rw [List.flatten_cons, Text.withoutMark_append hline, List.map_cons, List.flatten_cons]
  constructor
  · intro h
    have hunmarked := (Text.unmarked_iff_length lines).2 <| by
      have hlength := congrArg List.length h
      rw [length_colours, List.length_append, List.length_append, length_colours] at hlength
      have hkinds : ∀ texts : List (List Char),
          (texts.map fun text => colours (withoutMark text)).flatten.length =
            (texts.map withoutMark).flatten.length := by
        simp [List.length_flatten, Function.comp_def, length_colours]
      rw [hkinds] at hlength
      omega
    rw [List.map_congr_left fun line' hmem => by
      rw [Text.withoutMark_of_head? (hunmarked line' hmem)]] at h
    exact ⟨hunmarked, hall.1 h⟩
  · rintro ⟨hunmarked, hapart⟩
    rw [hall.2 hapart, List.map_congr_left fun line' hmem =>
      congrArg colours (Text.withoutMark_of_head? (hunmarked line' hmem)).symm]

/-- The lines of a plain text are plain. -/
theorem IsPlain.of_mem_lines {text : List Char} (h : IsPlain text) (hline : line ∈ Text.lines text) :
    IsPlain line := by
  have hsub : ∀ a ∈ line, a ∈ text ∨ a = '\n' := fun a ha => (Text.mem_of_mem_lines hline ha).2
  refine ⟨fun hmem => ?_, fun hmem => ?_, fun hmem => ?_⟩
  · exact (hsub _ hmem).elim h.1 (by decide)
  · exact (hsub _ hmem).elim h.2.1 (by decide)
  · exact (hsub _ hmem).elim h.2.2 (by decide)

theorem IsPlain.flatten (h : ∀ line ∈ lines, IsPlain line) : IsPlain lines.flatten := by
  refine ⟨fun hmem => ?_, fun hmem => ?_, fun hmem => ?_⟩
  · obtain ⟨line, hline, ha⟩ := List.mem_flatten.1 hmem
    exact (h line hline).1 ha
  · obtain ⟨line, hline, ha⟩ := List.mem_flatten.1 hmem
    exact (h line hline).2.1 ha
  · obtain ⟨line, hline, ha⟩ := List.mem_flatten.1 hmem
    exact (h line hline).2.2 ha

end Lines

end Idl
end Language

/-! ## The lines of an engine's text -/

namespace Engine

/-- The kind of each character of a text in a language, as it is prepared for scanning. -/
def kindsOf (e : Engine) (text : List Char) (name : String) : Except EngineFault (List Kind) :=
  (e.tokenize (String.ofList text) name).map Token.kinds

/-- The characters of a text get the kinds that they get when each of its lines is read alone. -/
def LineByLine (e : Engine) (name : String) (text : List Char) : Prop :=
  ∃ parts, List.Forall₂ (fun line kinds => e.kindsOf line name = .ok kinds) (Text.lines text) parts ∧
    e.kindsOf text name = .ok parts.flatten

variable {e : Engine} {name : String}

open Language

theorem kindsOf_eq (he : e.IsCoherent) (hget : e.get? name = some Language.Idl.grammar)
    {text : List Char} (hplain : Idl.IsPlain (Preparation.keepingLines.apply text)) :
    e.kindsOf text name = .ok (Idl.colours (Preparation.keepingLines.apply text)) := by
  obtain ⟨l, hl, htokens⟩ := Language.Idl.exists_tokens
  obtain ⟨tokens, hread, hkinds⟩ := htokens _ hplain
  have hraw : l.rawTokens (String.ofList text) = .ok tokens := by
    rw [Lexer.rawTokens, Lexer.tokensOf, String.toList_ofList, hread]
    rfl
  rw [kindsOf, he.tokens name _ hget, Grammar.tokenize, hl]
  show ((l.rawTokens (String.ofList text)).map Token.merge).map Token.kinds = _
  rw [hraw, ← hkinds, ← Token.kinds_merge]
  rfl

/-- A line loses the byte order mark that it begins with. -/
theorem kindsOf_line (he : e.IsCoherent) (hget : e.get? name = some Language.Idl.grammar)
    {text line : List Char} (hplain : Idl.IsPlain text) (hline : line ∈ Text.lines text) :
    e.kindsOf line name = .ok (Idl.colours (withoutMark line)) := by
  have happly : Preparation.keepingLines.apply line = withoutMark line :=
    Preparation.keepingLines_apply_line (Text.isLine_of_mem_lines hline) fun hmem =>
      (Text.mem_of_mem_lines hline hmem).1 rfl
  rw [← happly]
  refine kindsOf_eq he hget ?_
  rw [happly]
  exact (hplain.of_mem_lines hline).mono fun _ => mem_of_mem_withoutMark

/-- So does a text. -/
theorem kindsOf_lines (he : e.IsCoherent) (hget : e.get? name = some Language.Idl.grammar)
    {text : List Char} (hplain : Idl.IsPlain text) :
    e.kindsOf text name = .ok (Idl.colours (withoutMark (Text.lines text).flatten)) := by
  have happly : Preparation.keepingLines.apply text = withoutMark (Text.lines text).flatten := by
    rw [Preparation.keepingLines_apply_eq, Text.flatten_lines]
  rw [← happly]
  refine kindsOf_eq he hget ?_
  rw [happly]
  refine Idl.IsPlain.mono (Idl.IsPlain.flatten fun line hline => ?_) fun _ => mem_of_mem_withoutMark
  exact hplain.of_mem_lines hline

theorem lineByLine_iff_colours (he : e.IsCoherent) (hget : e.get? name = some Language.Idl.grammar)
    {text : List Char} (hplain : Idl.IsPlain text) :
    e.LineByLine name text ↔
      Idl.colours (withoutMark (Text.lines text).flatten) =
        ((Text.lines text).map fun line => Idl.colours (withoutMark line)).flatten := by
  have hparts : List.Forall₂ (fun line kinds => e.kindsOf line name = .ok kinds) (Text.lines text)
      ((Text.lines text).map fun line => Idl.colours (withoutMark line)) := by
    rw [List.forall₂_map_right_iff, List.forall₂_same]
    exact fun line hline => kindsOf_line he hget hplain hline
  constructor
  · rintro ⟨parts, hforall, hwhole⟩
    have hunique : Relator.RightUnique fun line kinds => e.kindsOf line name = .ok kinds :=
      fun _ _ _ h h' => Except.ok.inj (h.symm.trans h')
    obtain rfl := List.right_unique_forall₂' hunique hforall hparts
    rw [kindsOf_lines he hget hplain] at hwhole
    exact Except.ok.inj hwhole
  · intro h
    exact ⟨_, hparts, by rw [kindsOf_lines he hget hplain, h]⟩

end Engine

namespace Language
namespace Idl

/-- **When a text is read line by line:** its characters get the kinds that they get when each line is
read alone exactly if each line that ends in a bare `@` or `:` has behind it what keeps it so, and
no line but the first begins with a byte order mark. -/
theorem lineByLine_iff {e : Engine} {name : String} (he : e.IsCoherent)
    (hget : e.get? name = some grammar) {text : List Char} (hplain : IsPlain text) :
    e.LineByLine name text ↔ LinesApart text := by
  obtain ⟨line, lines, hlines⟩ : ∃ line lines, Text.lines text = line :: lines :=
    List.exists_cons_of_ne_nil (Text.lines_ne_nil text)
  have hall : ∀ line' ∈ line :: lines, Text.IsLine line' ∧ '[' ∉ line' := fun line' hmem =>
    ⟨Text.isLine_of_mem_lines (hlines ▸ hmem), (hplain.of_mem_lines (hlines ▸ hmem)).1⟩
  obtain ⟨hline, hbracket⟩ := hall line List.mem_cons_self
  rw [Engine.lineByLine_iff_colours he hget hplain, hlines,
    colours_withoutMark_iff hline hbracket fun line' hmem =>
      hall line' (List.mem_cons_of_mem _ hmem)]
  constructor
  · rintro ⟨hunmarked, hapart⟩
    exact ⟨by rwa [hlines], by rwa [hlines]⟩
  · rintro ⟨hunmarked, hapart⟩
    rw [hlines] at hunmarked hapart
    exact ⟨hunmarked, hapart⟩

theorem isCoherent_idlOnly : Engine.idlOnly.IsCoherent :=
  Engine.KeepsOwn.isCoherent (Engine.IsNew.keepsOwn ⟨List.nodup_singleton _, rfl⟩) <|
    Engine.NamesOwn.isUnambiguous
      (fun l hl => by obtain rfl := List.mem_singleton.1 hl; rfl) (List.nodup_singleton _)

/-- A declaration with a literal, between a comment and documentation, is read line by line. -/
theorem lineByLine_declaration :
    Engine.idlOnly.IsCoherent ∧ Engine.idlOnly.get? "idl" = some grammar ∧
      IsPlain "// all of it\nsize: 3 @ in bytes\n\n@ the name\nname :\n".toList ∧
      Engine.idlOnly.LineByLine "idl"
        "// all of it\nsize: 3 @ in bytes\n\n@ the name\nname :\n".toList := by
  have hplain : IsPlain "// all of it\nsize: 3 @ in bytes\n\n@ the name\nname :\n".toList := by
    rw [IsPlain]
    decide
  refine ⟨isCoherent_idlOnly, rfl, hplain,
    (lineByLine_iff isCoherent_idlOnly rfl hplain).2 ⟨?_, ?_⟩⟩
  · decide
  · decide

/-- **A text need not be read line by line:** a literal that has no value on its line takes the word
on the next line for its value. -/
theorem not_forall_lineByLine :
    ¬ ∀ (e : Engine) (name : String), e.IsCoherent → e.get? name = some grammar →
      ∀ text, IsPlain text → e.LineByLine name text := by
  intro h
  have hplain : IsPlain [':', '\n', 'f', 'o', 'o'] := by
    rw [IsPlain]
    decide
  have hline := h Engine.idlOnly "idl" isCoherent_idlOnly rfl _ hplain
  rw [Engine.lineByLine_iff_colours isCoherent_idlOnly rfl hplain] at hline
  have hlines : Text.lines [':', '\n', 'f', 'o', 'o'] = [[':', '\n'], ['f', 'o', 'o', '\n']] := by
    decide
  rw [hlines] at hline
  have hapart := ((colours_withoutMark_iff ⟨[':'], rfl, by decide⟩ (by decide) fun line hmem => by
    obtain rfl := List.mem_singleton.1 hmem
    exact ⟨⟨['f', 'o', 'o'], rfl, by decide⟩, by decide⟩).1 hline).2
  exact absurd hapart (by decide)

end Idl
end Language
end DocHighlighter
