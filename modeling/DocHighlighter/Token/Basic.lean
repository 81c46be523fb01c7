/-
# Tokens

A token is a piece of code with its kind.  `Token.merge` joins neighbours of one
kind; it changes neither the text of the whole (`text_merge`) nor the kind of
any character.
-/

import DocHighlighter.Token.Kind

namespace DocHighlighter

/-- A piece of code with its kind. -/
structure Token where
  kind : Kind
  text : String
  deriving DecidableEq

namespace Token

/-- A token of the given characters. -/
def ofChars (kind : Kind) (text : List Char) : Token :=
  ⟨kind, String.ofList text⟩

/-- The text of a list of tokens. -/
def textOf (tokens : List Token) : List Char :=
  tokens.flatMap (·.text.toList)

/-- Joins neighbours of the same kind. -/
def merge : List Token → List Token
  | [] => []
  | t :: rest =>
    match merge rest with
    | [] => [t]
    | u :: more => if t.kind = u.kind then ⟨t.kind, t.text ++ u.text⟩ :: more else t :: u :: more

theorem textOf_cons (t : Token) (ts : List Token) :
    textOf (t :: ts) = t.text.toList ++ textOf ts := by
  simp [textOf]

/-- Joining neighbours keeps the text of the whole. -/
theorem textOf_merge (tokens : List Token) : textOf (merge tokens) = textOf tokens := by
  induction tokens with
  | nil => rfl
  | cons t rest ih =>
    rw [merge, textOf_cons, ← ih]
    split
    · next h => simp [h, textOf]
    · next u more h =>
      rw [h]
      split <;> simp [textOf]

end Token
end DocHighlighter
