/-
# What the written form of words matches

In the written form of some words (`WordForm`) what the words have in common stands once, and words
of one character are a set.  The form is an expression of its own (`WordForm.expr`), and that matches
just as the words do, tried one after the other (`WordForm.run_expr`): whatever has to follow, and
whether the case of letters counts or not.

So it makes no difference which of the two a pattern for a whole word is made of
(`matchAt?_wordForm`).
-/

import DocHighlighter.Proofs.Pattern.Runs
import DocHighlighter.Proofs.Pattern.WordForm

namespace DocHighlighter
namespace Pattern

open Text (Cursor)

variable {f : Flags} {c : Cursor} {g : Captures} {k : Continuation}

theorem sameText_append (same : Char → Char → Bool) (u v : List Char) (c : Cursor) :
    sameText same (u ++ v) c = (sameText same u c).bind (sameText same v) := by
  induction u generalizing c with
  | nil => rfl
  | cons a u ih =>
    rw [List.cons_append, sameText, sameText]
    cases c.next? with
    | none => rfl
    | some next =>
      dsimp only
      split
      · exact ih next.2
      · rfl

namespace Expr

/-- A text and another behind it match as the whole does. -/
theorem run_text_append (u v : List Char) (c : Cursor) (g : Captures) (k : Continuation) :
    (text (u ++ v)).run f c g k = (text u).run f c g fun d h => (text v).run f d h k := by
  rw [run_text, run_text, sameText_append, Option.bind_assoc]
  exact Option.bind_congr fun d _ => (run_text v g k).symm

theorem run_text_singleton (a : Char) (c : Cursor) (g : Captures) (k : Continuation) :
    (text [a]).run f c g k = oneChar (f.same a) c g k :=
  run_text_cons a [] g k

end Expr

/-- One of some characters is the first of them that comes next. -/
theorem findSome?_oneChar (cs : List Char) (c : Cursor) (g : Captures) (k : Continuation) :
    cs.findSome? (fun a => oneChar (f.same a) c g k) =
      oneChar (fun b => cs.any fun a => f.same a b) c g k := by
  unfold oneChar
  cases c.next? with
  | none => exact List.findSome?_eq_none_iff.2 fun _ _ => rfl
  | some next =>
    dsimp only
    induction cs with
    | nil => rfl
    | cons a cs ih =>
      simp only [List.findSome?_cons, ih, List.any_cons]
      by_cases ha : f.same a next.1 = true
      · cases k next.2 g <;> simp [ha]
      · simp [ha]

namespace WordForm

/-- A form as an expression: a set of characters, a body that may be left out, a text before or
behind a body, one of two bodies. -/
def expr : WordForm → Expr
  | text cs => .text cs
  | oneOf c cs => .oneOf false ((c :: cs).map .single)
  | optional body => .turns 0 (some 1) .greedy body.expr
  | beginning cs body => .seq (.text cs) body.expr
  | ending body cs => .seq body.expr (.text cs)
  | either a b => .alt a.expr b.expr

/-- **A form matches as its words do,** tried one after the other: by induction on the form. -/
theorem run_expr (form : WordForm) (c : Cursor) (g : Captures) (k : Continuation) :
    form.expr.run f c g k = form.words.findSome? fun w => (Expr.text w).run f c g k := by
  induction form generalizing c g k with
  | text cs => rw [words, List.findSome?_singleton, expr]
  | oneOf a cs =>
    have hitems : (fun b => (((a :: cs).map SetItem.single).any fun i => i.holds f b) != false) =
        fun b => (a :: cs).any fun a => f.same a b := by
      funext b
      rw [List.any_map, Bool.bne_false]
      rfl
    rw [expr, Expr.run, hitems, ← findSome?_oneChar, words, List.findSome?_map]
    simp only [Function.comp_def, Expr.run_text_singleton]
  | optional body ih =>
    rw [expr, Expr.run_optional, ih, words, List.findSome?_append, List.findSome?_singleton]
    rfl
  | beginning cs body ih =>
    simp only [expr, Expr.run, ih, words, List.findSome?_map, Function.comp_def, Expr.run_text,
      sameText_append]
    cases sameText f.same cs c with
    | none => exact (List.findSome?_eq_none_iff.2 fun _ _ => rfl).symm
    | some d => rfl
  | ending body cs ih =>
    simp only [expr, Expr.run, ih, words, List.findSome?_map, Function.comp_def,
      Expr.run_text_append]
  | either a b ih ih' =>
    rw [expr, Expr.run, ih, ih', words, List.findSome?_append]
    · cases a.words.findSome? fun w => (Expr.text w).run f c g k <;> rfl

end WordForm

/-- **A pattern for a whole word** matches alike with the words in their written form and with the
words one after the other. -/
theorem matchAt?_wordForm {words : List (List Char)} (hne : words ≠ []) (h : words.Nodup)
    (f : Flags) (c : Cursor) :
    (⟨.seq (.anchor .wordEdge) (.seq (wordForm (inOrder words)).expr (.anchor .wordEdge)), f⟩ :
        Pattern).matchAt? c = (⟨.wholeWord words, f⟩ : Pattern).matchAt? c := by
  simp only [matchAt?, Expr.wholeWord, Expr.run, Expr.oneOfWords_eq hne h, Expr.run_altAll,
    WordForm.run_expr, List.findSome?_map, Function.comp_def]

end Pattern
end DocHighlighter
