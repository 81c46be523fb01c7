/-
# The width of a pattern

How many characters the matches of an expression have, at least and at most.
A look behind needs the two to be the same.
-/

import DocHighlighter.Pattern.Basic

namespace DocHighlighter
namespace Pattern

/-- How many characters the matches of an expression have. -/
structure Width where
  least : Nat
  /-- Without a bound if absent. -/
  most : Option Nat
  deriving DecidableEq

namespace Width

/-- The width of one expression after another. -/
def add (a b : Width) : Width :=
  ⟨a.least + b.least, a.most.bind fun m => b.most.map (m + ·)⟩

/-- The width of either of two expressions. -/
def either (a b : Width) : Width :=
  ⟨min a.least b.least, a.most.bind fun m => b.most.map (max m)⟩

/-- The width of a repeated expression. -/
def turns (least : Nat) (most : Option Nat) (a : Width) : Width where
  least := a.least * least
  most :=
    match a.most, most with
    | some 0, _ => some 0
    | some m, some n => some (m * n)
    | some _, none => none
    | none, some 0 => some 0
    | none, _ => none

end Width

/-- The width of an expression, given the widths of the groups. -/
def Expr.width (groups : Nat → Width) : Expr → Width
  | .empty => ⟨0, some 0⟩
  | .char _ => ⟨1, some 1⟩
  | .any => ⟨1, some 1⟩
  | .oneOf _ _ => ⟨1, some 1⟩
  | .anchor _ => ⟨0, some 0⟩
  | .seq a b => (a.width groups).add (b.width groups)
  | .alt a b => (a.width groups).either (b.width groups)
  | .group _ a => a.width groups
  | .scoped _ _ a => a.width groups
  | .turns least most _ a => (a.width groups).turns least most
  | .ahead _ _ => ⟨0, some 0⟩
  | .behind _ _ _ => ⟨0, some 0⟩
  | .atomic a => a.width groups
  | .backref n => groups n
  | .ifGroup _ yes no => (yes.width groups).either (no.width groups)

end Pattern
end DocHighlighter
