/-
# A place in a text

A cursor holds the text on both sides of a place: what lies before it, nearest
character first, and what lies after it.  Moving over a character takes it from
one side to the other, so the whole text is the same at every place
(`Cursor.text_eq_of_next?`).  The two lengths are kept beside the texts, so that
asking for a position costs nothing.
-/

namespace DocHighlighter
namespace Text

/-- A place between two characters of a text. -/
structure Cursor where
  /-- The characters before the place, nearest first. -/
  before : List Char
  /-- The characters after the place. -/
  after : List Char
  /-- How many characters lie before the place. -/
  pos : Nat
  /-- How many characters lie after the place. -/
  remaining : Nat
  pos_eq : pos = before.length
  remaining_eq : remaining = after.length

namespace Cursor

/-- The start of a text. -/
def start (text : List Char) : Cursor :=
  ⟨[], text, 0, text.length, rfl, rfl⟩

/-- The whole text around the place. -/
def text (c : Cursor) : List Char :=
  c.before.reverse ++ c.after

/-- The character after the place, and the place after that character. -/
def next? : Cursor → Option (Char × Cursor)
  | ⟨_, [], _, _, _, _⟩ => none
  | ⟨before, a :: after, pos, remaining, h, k⟩ =>
    some (a, ⟨a :: before, after, pos + 1, remaining - 1, by simp [h], by simp [k]⟩)

/-- The place one character earlier. -/
def prev? : Cursor → Option Cursor
  | ⟨[], _, _, _, _, _⟩ => none
  | ⟨a :: before, after, pos, remaining, h, k⟩ =>
    some ⟨before, a :: after, pos - 1, remaining + 1, by simp [h], by simp [k]⟩

/-- The place `n` characters earlier. -/
def back? : Nat → Cursor → Option Cursor
  | 0, c => some c
  | n + 1, c => c.prev?.bind (back? n)

/-- Whether nothing lies after the place. -/
def atEnd (c : Cursor) : Bool :=
  c.after.isEmpty

/-- Whether nothing lies before the place. -/
def atStart (c : Cursor) : Bool :=
  c.before.isEmpty

/-- Whether a line starts here. -/
def atLineStart (c : Cursor) : Bool :=
  match c.before with
  | [] => true
  | a :: _ => a == '\n'

/-- Whether a line ends here. -/
def atLineEnd (c : Cursor) : Bool :=
  match c.after with
  | [] => true
  | a :: _ => a == '\n'

/-- The text from one place up to a later one. -/
def upTo (c d : Cursor) : List Char :=
  c.after.take (d.pos - c.pos)

/-- What lies after a place begins with the character moved over. -/
theorem after_eq_of_next? {c d : Cursor} {a : Char} (h : c.next? = some (a, d)) :
    c.after = a :: d.after := by
  obtain ⟨before, after, pos, remaining, hp, hr⟩ := c
  cases after with
  | nil => simp [next?] at h
  | cons b rest =>
    simp only [next?, Option.some.injEq, Prod.mk.injEq] at h
    obtain ⟨rfl, rfl⟩ := h
    rfl

/-- What lies before a place ends in the character moved over. -/
theorem before_eq_of_next? {c d : Cursor} {a : Char} (h : c.next? = some (a, d)) :
    d.before = a :: c.before := by
  obtain ⟨before, after, pos, remaining, hp, hr⟩ := c
  cases after with
  | nil => simp [next?] at h
  | cons b rest =>
    simp only [next?, Option.some.injEq, Prod.mk.injEq] at h
    obtain ⟨rfl, rfl⟩ := h
    rfl

/-- Moving over a character leaves the whole text as it is. -/
theorem text_eq_of_next? {c d : Cursor} {a : Char} (h : c.next? = some (a, d)) :
    d.text = c.text := by
  rw [text, text, after_eq_of_next? h, before_eq_of_next? h]
  simp

/-- Moving over a character leaves one character less to come. -/
theorem remaining_eq_of_next? {c d : Cursor} {a : Char} (h : c.next? = some (a, d)) :
    c.remaining = d.remaining + 1 := by
  rw [c.remaining_eq, d.remaining_eq, after_eq_of_next? h, List.length_cons]

end Cursor

end Text
end DocHighlighter
