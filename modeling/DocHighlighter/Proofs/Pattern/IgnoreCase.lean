/-
# Reading a pattern does not look at the case of letters

What a written pattern stands for does not depend on whether letters match in either case: the
flags are carried along, and of them only one is ever asked for, whether blanks and comments are
skipped.  So a reader that begins with letters taken in either case goes the same way as one that
does not (`Reader.Blind`), and the patterns that can be read are the same
(`Pattern.read_ignoringCase`).
-/

import DocHighlighter.Pattern.Notation

namespace DocHighlighter
namespace Pattern

/-- The flags with letters taken in either case. -/
def Flags.ignoringCase (f : Flags) : Flags :=
  { f with ignoreCase := true }

/-- How far the reading has come, with letters taken in either case. -/
def Reading.ignoringCase (r : Reading) : Reading :=
  { r with flags := r.flags.ignoringCase }

@[simp]
theorem Flags.verbose_ignoringCase (f : Flags) : f.ignoringCase.verbose = f.verbose := rfl

namespace Reading

variable (r : Reading)

@[simp]
theorem rest_ignoringCase : r.ignoringCase.rest = r.rest := rfl

@[simp]
theorem flags_ignoringCase : r.ignoringCase.flags = r.flags.ignoringCase := rfl

@[simp]
theorem names_ignoringCase : r.ignoringCase.names = r.names := rfl

@[simp]
theorem asked_ignoringCase : r.ignoringCase.asked = r.asked := rfl

@[simp]
theorem letters_ignoringCase : r.ignoringCase.letters = r.letters := rfl

@[simp]
theorem behindFault_ignoringCase : r.ignoringCase.behindFault = r.behindFault := rfl

end Reading

theorem Flags.union_ignoringCase (a b : Flags) :
    a.ignoringCase.union b = (a.union b).ignoringCase := by
  rw [union, ignoringCase, Bool.true_or]
  rfl

namespace Reader

variable {α β : Type}

/-- A second reader does with letters taken in either case what the first does without. -/
def Alike (m m' : Reader α) : Prop :=
  ∀ r, m' r.ignoringCase = (m r).map fun (a, r') => (a, r'.ignoringCase)

/-- A reader that does not look at the case of letters. -/
def Blind (m : Reader α) : Prop :=
  Alike m m

theorem Alike.bind {m m' : Reader α} {f f' : α → Reader β} (hm : Alike m m')
    (hf : ∀ a, Alike (f a) (f' a)) : Alike (m >>= f) (m' >>= f') := by
  intro r
  have hr := hm r
  simp only [Bind.bind, StateT.bind, hr]
  cases m r with
  | error fault => rfl
  | ok answer => exact hf answer.1 answer.2

theorem Blind.bind {m : Reader α} {f : α → Reader β} (hm : Blind m) (hf : ∀ a, Blind (f a)) :
    Blind (m >>= f) :=
  Alike.bind hm hf

theorem Blind.ite {m m' : Reader α} {c : Prop} [Decidable c] (hm : Blind m) (hm' : Blind m') :
    Blind (if c then m else m') := by
  split
  · exact hm
  · exact hm'

theorem Alike.ite {m m' : Reader α} {k k' : Reader α} {c : Prop} [Decidable c] (hm : Alike m m')
    (hk : Alike k k') : Alike (if c then m else k) (if c then m' else k') := by
  split
  · exact hm
  · exact hk

theorem Blind.get_bind {f : Reading → Reader β} (h : ∀ r, Alike (f r) (f r.ignoringCase)) :
    Blind (get >>= f) :=
  fun r => h r r

theorem Alike.set (r : Reading) : Alike (set r) (set r.ignoringCase) :=
  fun _ => rfl

theorem Blind.modify {f : Reading → Reading} (h : ∀ r, f r.ignoringCase = (f r).ignoringCase) :
    Blind (modify f) :=
  fun r => congrArg (fun r' => Except.ok ((), r')) (h r)

theorem Blind.pure (a : α) : Blind (pure a) :=
  fun _ => rfl

theorem Blind.throw (fault : Fault) : Blind (throw fault : Reader α) :=
  fun _ => rfl

theorem blind_refuse (cause : Cause) (back : Nat) : Blind (refuse cause back : Reader α) :=
  fun _ => rfl

theorem Blind.ite_bind {m m' : Reader α} {f : α → Reader β} {c : Prop} [Decidable c]
    (hm : Blind m) (hm' : Blind m') (hf : ∀ a, Blind (f a)) :
    Blind (if c then m >>= f else m' >>= f) :=
  .ite (.bind hm hf) (.bind hm' hf)

/-- Going on after a check that may refuse the pattern. -/
theorem Blind.unless {m : Reader Unit} {f : Unit → Reader β} {c : Prop} [Decidable c]
    (hm : Blind m) (hf : ∀ a, Blind (f a)) : Blind (if c then m >>= f else f ()) :=
  .ite (.bind hm hf) (hf ())

theorem blind_peek : Blind peek :=
  fun _ => rfl

theorem blind_position : Blind position :=
  fun _ => rfl

theorem blind_left : Blind left :=
  fun _ => rfl

theorem blind_groupCount : Blind groupCount :=
  fun _ => rfl

theorem blind_isClosed (group : Nat) : Blind (isClosed group) :=
  fun _ => rfl

theorem checkNext_ignoringCase (r : Reading) :
    checkNext r.ignoringCase = (checkNext r).map Reading.ignoringCase := by
  unfold checkNext
  rw [Reading.rest_ignoringCase]
  split <;> rfl

theorem blind_take : Blind take := by
  intro r
  unfold take
  rw [Reading.rest_ignoringCase]
  cases r.rest with
  | nil => rfl
  | cons s rest =>
    have hnext := checkNext_ignoringCase { r with rest := rest, pos := r.pos + s.written.length }
    dsimp only [Reading.ignoringCase] at hnext ⊢
    rw [hnext]
    cases checkNext { r with rest := rest, pos := r.pos + s.written.length } <;> rfl

theorem blind_nextIs (c : Char) : Blind (nextIs c) :=
  .bind blind_peek fun _ => .pure _

theorem blind_takeIf (c : Char) : Blind (takeIf c) :=
  .bind (blind_nextIs c) fun _ => .ite (.bind blind_take fun _ => .pure _) (.pure _)

theorem blind_takeWhile (p : Char → Bool) : ∀ n, Blind (takeWhile p n)
  | 0 => .pure _
  | n + 1 => by
    refine .bind blind_peek fun next => ?_
    split
    · exact .ite (.bind blind_take fun _ => .bind (blind_takeWhile p n) fun _ => .pure _) (.pure _)
    · exact .pure _

/-- One sign of a name, and how the reading goes on after it. -/
def takeNameStep (closer : Char) (what : String) (goOn : List Char → Reader (List Char))
    (name : List Char) : Reader (List Char) := do
  match ← take with
  | none =>
    if name.isEmpty then refuse (.missingName what)
    else refuse (.unterminatedName closer) name.length
  | some s =>
    if s == .char closer then
      if name.isEmpty then refuse (.missingName what) 1
      return name
    goOn (name ++ s.written)

theorem takeName_go_zero (closer : Char) (what : String) :
    takeName.go closer what 0 = fun name => takeNameStep closer what (fun _ => pure name) name := by
  delta takeName.go
  rfl

theorem takeName_go_succ (closer : Char) (what : String) (fuel : Nat) :
    takeName.go closer what (fuel + 1) =
      takeNameStep closer what (takeName.go closer what fuel) := by
  delta takeName.go
  rfl

theorem blind_takeNameStep (closer : Char) (what : String) {goOn : List Char → Reader (List Char)}
    (hgoOn : ∀ name, Blind (goOn name)) (name : List Char) :
    Blind (takeNameStep closer what goOn name) := by
  refine .bind blind_take fun next => ?_
  split
  · exact .ite (blind_refuse _ _) (blind_refuse _ _)
  · exact .ite (.unless (blind_refuse _ _) fun _ => .pure _) (hgoOn _)

theorem blind_takeName_go (closer : Char) (what : String) :
    ∀ fuel name, Blind (takeName.go closer what fuel name)
  | 0, name => by
    rw [takeName_go_zero]
    exact blind_takeNameStep closer what (fun _ => .pure _) name
  | fuel + 1, name => by
    rw [takeName_go_succ]
    exact blind_takeNameStep closer what (blind_takeName_go closer what fuel) name

theorem blind_takeName (closer : Char) (what : String) : Blind (takeName closer what) :=
  .bind blind_left fun fuel => blind_takeName_go closer what fuel []

theorem blind_skipTo (c : Char) : ∀ fuel, Blind (skipTo c fuel)
  | 0 => .pure _
  | fuel + 1 => by
    refine .bind blind_take fun next => ?_
    split
    · exact .pure _
    · exact .ite (.pure _) (blind_skipTo c fuel)

theorem blind_checkName (name : List Char) : Blind (checkName name) :=
  .ite (blind_refuse _ _) (.pure _)

theorem blind_checkBehind (group : Nat) : Blind (checkBehind group) := by
  refine .get_bind fun r => ?_
  change Blind _
  split
  · exact .pure _
  · exact .bind (blind_isClosed group) fun _ =>
      .unless (blind_refuse _ _) fun _ => .ite (blind_refuse _ _) (.pure _)

end Reader

open Reader

/-! ## Escapes and sets -/

theorem blind_readHex (letter : Char) (n : Nat) : Blind (readHex letter n) :=
  .bind (blind_takeWhile _ n) fun _ =>
    .unless (blind_refuse _ _) fun _ => .unless (blind_refuse _ _) fun _ => .pure _

theorem blind_readCharacterName : Blind readCharacterName :=
  .bind (blind_takeIf _) fun _ => .unless (blind_refuse _ _) fun _ =>
    .bind (blind_takeName _ _) fun _ => blind_refuse _ _

theorem blind_octal (digits : List Char) : Blind (octal digits) :=
  .unless (blind_refuse _ _) fun _ => .pure _

theorem blind_readReference (c : Char) : Blind (readReference c) := by
  unfold readReference
  have hgroup : ∀ digits : List Char, Blind (do
      let group := Text.digitsValue 10 digits
      if group ≤ (← groupCount) then
        if !(← isClosed group) then refuse .openReference (digits.length + 1)
        checkBehind group
        return .backref group
      refuse (.invalidReference group) digits.length : Reader Expr) := fun digits =>
    .bind blind_groupCount fun _ => .ite
      (.bind (blind_isClosed _) fun _ => .unless (blind_refuse _ _) fun _ =>
        .bind (blind_checkBehind _) fun _ => .pure _)
      (blind_refuse _ _)
  refine .bind blind_peek fun next => ?_
  split
  · refine .ite (.bind blind_take fun _ => .ite (.bind blind_peek fun next => ?_) (hgroup _))
      (hgroup _)
    split
    · exact .ite (.bind blind_take fun _ => .bind (blind_octal _) fun _ => .pure _) (hgroup _)
    · exact hgroup _
  · exact hgroup _

theorem blind_readEscape (c : Char) : Blind (readEscape c) := by
  unfold readEscape
  split
  · exact .pure _
  split
  · exact .pure _
  split
  · exact .pure _
  have hhex : ∀ n, Blind (do return ⟨codeExpr (← readHex c n), .plain⟩ : Reader Item) := fun n =>
    .bind (blind_readHex c n) fun _ => .pure _
  exact .ite (hhex 2) <| .ite (hhex 4) <| .ite (hhex 8) <|
    .ite (.bind blind_readCharacterName fun _ => .pure _) <|
    .ite (.bind (blind_takeWhile _ _) fun _ => .pure _) <|
    .ite (.bind (blind_readReference c) fun _ => .pure _) <|
    .unless (blind_refuse _ _) fun _ => .pure _

theorem blind_readSetEscape (c : Char) : Blind (readSetEscape c) := by
  unfold readSetEscape
  refine .ite (.pure _) ?_
  split
  · exact .pure _
  split
  · exact .pure _
  have hhex : ∀ n, Blind (do return .code (← readHex c n) : Reader SetSign) := fun n =>
    .bind (blind_readHex c n) fun _ => .pure _
  exact .ite (hhex 2) <| .ite (hhex 4) <| .ite (hhex 8) <|
    .ite (.bind blind_readCharacterName fun _ => .pure _) <|
    .ite (.bind (blind_takeWhile _ _) fun _ => .bind (blind_octal _) fun _ => .pure _) <|
    .unless (blind_refuse _ _) fun _ => .pure _

theorem blind_readSetSign : ∀ s, Blind (readSetSign s)
  | .char _ => .pure _
  | .escape c => blind_readSetEscape c
  | .dangling => .pure _

theorem blind_readSetItems (start : Nat) :
    ∀ fuel first items, Blind (readSetItems start fuel first items)
  | 0, _, _ => .pure _
  | fuel + 1, first, items => by
    have hunterminated {α : Type} : Blind (do
        refuse .unterminatedSet ((← position) - start) : Reader α) :=
      .bind blind_position fun _ => blind_refuse _ _
    unfold readSetItems
    refine .bind blind_take fun this => ?_
    split
    · refine .ite (.pure _) (.bind (blind_readSetSign _) fun lo => .bind (blind_takeIf _) fun _ =>
        .ite (.bind blind_take fun that => ?_) (blind_readSetItems start fuel _ _))
      split
      · refine .ite (.pure _) (.bind (blind_readSetSign _) fun hi => ?_)
        split
        · exact .unless (blind_refuse _ _) fun _ => blind_readSetItems start fuel _ _
        · exact blind_refuse _ _
      · exact hunterminated
    · exact hunterminated

theorem blind_readSet : Blind readSet :=
  .bind blind_position fun _ => .bind (blind_takeIf _) fun _ => .bind blind_left fun _ =>
    .bind (blind_readSetItems _ _ _ _) fun _ => .pure _

/-! ## Openings -/

theorem blind_refuseFlag {α : Type} (cause : Cause) : ∀ s, Blind (refuseFlag cause s : Reader α)
  | .char _ => blind_refuse _ _
  | .escape _ => blind_refuse _ _
  | .dangling => blind_refuse _ _

theorem blind_readFlagsOn : ∀ fuel c letters, Blind (readFlagsOn fuel c letters)
  | 0, _, _ => .pure _
  | fuel + 1, c, letters => by
    unfold readFlagsOn
    refine .unless (blind_refuse _ _) fun _ => .unless (blind_refuse _ _) fun _ =>
      .bind blind_take fun next => ?_
    split
    · exact blind_refuse _ _
    · exact .ite (.pure _) (.ite (blind_readFlagsOn fuel _ _) (blind_refuseFlag _ _))
    · exact blind_refuseFlag _ _

theorem blind_readFlagsOff : ∀ fuel c letters, Blind (readFlagsOff fuel c letters)
  | 0, _, _ => .pure _
  | fuel + 1, c, letters => by
    unfold readFlagsOff
    refine .unless (blind_refuse _ _) fun _ => .bind blind_take fun next => ?_
    split
    · exact blind_refuse _ _
    · exact .ite (.pure _) (.ite (blind_readFlagsOff fuel _ _) (blind_refuseFlag _ _))
    · exact blind_refuseFlag _ _

theorem blind_readFlags (c : Char) : Blind (readFlags c) := by
  unfold readFlags
  refine .bind blind_left fun fuel =>
    .ite_bind (.pure _) (blind_readFlagsOn _ _ _) fun ⟨on, closer⟩ => ?_
  have hoff : ∀ off : List Char, Blind (do
      if on.any off.contains then refuse .flagOnAndOff 1
      return some (flagsOf on, { flagsOf off with ascii := on.contains 'u' }) :
        Reader (Option (Flags × Flags))) := fun off =>
    .unless (blind_refuse _ _) fun _ => .pure _
  refine .ite (.bind (.modify fun r => ?_) fun _ => .pure _) <|
    .unless (blind_refuse _ _) fun _ =>
      .ite (.bind blind_take fun next => ?_) (.bind (.pure _) hoff)
  · rw [Reading.flags_ignoringCase, Flags.union_ignoringCase]
    rfl
  · split
    · exact .bind (blind_refuse _ _) hoff
    · exact .ite (.bind (blind_readFlagsOff _ _ _) hoff) (.bind (blind_refuseFlag _ _) hoff)
    · exact .bind (blind_refuseFlag _ _) hoff

theorem blind_readKnownName (name : List Char) : Blind (readKnownName name) := by
  refine .bind (blind_checkName name) fun _ => .get_bind fun r => ?_
  change Blind _
  split
  · exact .pure _
  · exact blind_refuse _ _

theorem blind_readNamed : Blind readNamed := by
  unfold readNamed
  refine .bind (blind_takeIf _) fun _ => .ite
    (.bind (blind_takeName _ _) fun _ => .bind (blind_checkName _) fun _ => .pure _) <|
    .bind (blind_takeIf _) fun _ => .ite
      (.bind (blind_takeName _ _) fun _ => .bind (blind_readKnownName _) fun _ =>
        .bind (blind_isClosed _) fun _ => .unless (blind_refuse _ _) fun _ =>
          .bind (blind_checkBehind _) fun _ => .pure _) <|
      .bind blind_take fun next => ?_
  split
  · exact blind_refuse _ _
  · exact blind_refuse _ _

theorem blind_readCondition : Blind readCondition := by
  unfold readCondition
  refine .bind (blind_takeName _ _) fun name => ?_
  have hgroup : ∀ group, Blind (do
      checkBehind group
      return group : Reader Nat) := fun group =>
    .bind (blind_checkBehind group) fun _ => .pure _
  refine .ite (.bind (blind_readKnownName _) hgroup) ?_
  split
  · exact .bind (blind_refuse _ _) hgroup
  · refine .unless (blind_refuse _ _) fun _ => .unless (blind_refuse _ _) fun _ =>
      .bind blind_position fun _ => .bind (.modify fun r => ?_) fun _ => .bind (.pure _) hgroup
    rw [Reading.asked_ignoringCase]
    split <;> rfl

theorem blind_readExtension (start : Nat) : Blind (readExtension start) := by
  unfold readExtension
  refine .bind blind_take fun next => ?_
  split
  · exact blind_refuse _ _
  · exact blind_readNamed
  · exact .pure _
  · exact .bind blind_left fun _ => .bind (blind_skipTo _ _) fun _ => .ite (.pure _) <|
      .bind blind_position fun _ => blind_refuse _ _
  · exact .pure _
  · exact .pure _
  · refine .bind blind_take fun next => ?_
    split
    · exact blind_refuse _ _
    · exact .pure _
    · exact .pure _
    · exact blind_refuse _ _
  · exact .bind blind_readCondition fun _ => .pure _
  · exact .pure _
  · split
    · refine .ite (.bind (blind_readFlags _) fun read => ?_) (blind_refuse _ _)
      split
      · exact .pure _
      · exact .pure _
    · exact blind_refuse _ _

/-! ## Items and alternatives -/

theorem blind_turnCount (digits : List Char) : Blind (turnCount digits) :=
  .ite (.pure _) <| .unless (.throw _) fun _ => .unless (.throw _) fun _ => .pure _

theorem blind_readBounds : Blind readBounds := by
  unfold readBounds
  refine .bind (blind_nextIs _) fun _ => .ite (.pure _) <| .get_bind fun here =>
    .bind blind_left fun _ => .bind (blind_takeWhile _ _) fun lo =>
      .bind (blind_takeIf _) fun comma => ?_
  cases comma
  case' true => refine .bind blind_left fun _ => .bind (blind_takeWhile _ _) fun hi => ?_
  case' false => refine .bind (Blind.pure lo) fun hi => ?_
  all_goals
    -- Where the digits are no bounds the reading begins anew, with letters taken as before.
    refine .bind (blind_takeIf _) fun _ => .ite (.bind (.set here) fun _ => Blind.pure _) <|
      .bind (blind_turnCount _) fun _ => .bind (blind_turnCount _) fun most => ?_
    change Blind _
    split
    · exact .ite (.bind blind_position fun _ => .bind (blind_refuse _ _) fun _ => .pure _)
        (.pure _)
    · exact .pure _

theorem blind_readRepeat (c : Char) : Blind (readRepeat c) := by
  unfold readRepeat
  split
  · exact .pure _
  · exact .pure _
  · exact .pure _
  · exact blind_readBounds

theorem blind_readEagerness : Blind readEagerness :=
  .bind (blind_takeIf _) fun _ => .ite (.pure _) <|
    .bind (blind_takeIf _) fun _ => .ite (.pure _) (.pure _)

theorem blind_openGroup (name : Option String) : Blind (openGroup name) := by
  refine .get_bind fun r => ?_
  cases name with
  | none => exact .bind (.set _) fun _ => Blind.pure _
  | some text =>
    dsimp only
    rw [Reading.names_ignoringCase]
    split
    · exact .bind (blind_refuse _ _) fun _ => Blind.pure _
    · exact .bind (.set _) fun _ => Blind.pure _

theorem blind_readWidth (e : Expr) : Blind (readWidth e) :=
  .get_bind fun _ => Blind.pure _

theorem blind_closeGroup (group : Nat) (body : Expr) : Blind (closeGroup group body) :=
  .bind (blind_readWidth _) fun _ => .modify fun _ => rfl

theorem blind_behindExpr (before : Option Fault) (negated : Bool) (body : Expr) :
    Blind (behindExpr before negated body) := by
  refine .bind (blind_readWidth _) fun width => ?_
  split
  · exact .bind (.modify fun _ => rfl) fun _ => .pure _
  · exact .pure _

theorem blind_takeClose (start : Nat) : Blind (takeClose start) :=
  .bind (blind_takeIf _) fun _ =>
    .ite (.bind blind_position fun _ => blind_refuse _ _) (.pure _)

/-- The readers that call one another do not look at the case of letters, with a given fuel. -/
structure BlindNested (fuel : Nat) : Prop where
  alternatives : ∀ verbose nested, Blind (readAlternatives fuel verbose nested)
  more : ∀ verbose nested read, Blind (readMore fuel verbose nested read)
  items : ∀ verbose first read, Blind (readItems fuel verbose first read)

namespace BlindNested

variable {fuel : Nat}

theorem body (h : BlindNested fuel) (verbose verbose' first : Bool) (start : Nat)
    (read : Expr → List Item) : Blind (do
      let body ← readAlternatives fuel verbose' true
      takeClose start
      readItems fuel verbose first (read body) : Reader Expr) :=
  .bind (h.alternatives _ _) fun _ => .bind (blind_takeClose _) fun _ => h.items _ _ _

theorem flags (h : BlindNested fuel) (first : Bool) (start : Nat) (read : List Item) : Blind (do
    if !first || !read.isEmpty then
      refuse .flagsNotFirst ((← position) - start)
    let r ← get
    readItems fuel r.flags.verbose first read : Reader Expr) := by
  have hitems : Blind (do
      let r ← get
      readItems fuel r.flags.verbose first read : Reader Expr) :=
    .get_bind fun r => h.items r.flags.verbose first read
  exact .ite (.bind blind_position fun _ => .bind (blind_refuse _ _) fun _ => hitems) hitems

theorem condition (h : BlindNested fuel) (verbose first : Bool) (start group : Nat)
    (read : List Item) : Blind (do
      let yes ← readItems fuel verbose false []
      let no ←
        if ← takeIf '|' then
          let no ← readItems fuel verbose false []
          if ← nextIs '|' then refuse .tooManyBranches
          pure no
        else pure .empty
      takeClose start
      readItems fuel verbose first (⟨.ifGroup group yes no, .plain⟩ :: read) : Reader Expr) := by
  have hclose : ∀ yes no, Blind (do
      takeClose start
      readItems fuel verbose first (⟨.ifGroup group yes no, .plain⟩ :: read)) := fun yes no =>
    .bind (blind_takeClose _) fun _ => h.items _ _ _
  exact .bind (h.items _ _ _) fun yes => .bind (blind_takeIf _) fun _ => .ite
    (.bind (h.items _ _ _) fun _ => .bind (blind_nextIs _) fun _ =>
      .unless (blind_refuse _ _) fun _ => .bind (.pure _) (hclose yes))
    (.bind (.pure _) (hclose yes))

theorem behind (h : BlindNested fuel) (verbose first negated : Bool) (start : Nat)
    (read : List Item) : Blind (do
      let outer := (← get).behindFrom
      let before := (← get).behindFault
      if outer.isNone then
        modify fun r => { r with behindFrom := some (r.groups.size + 1) }
      let body ← readAlternatives fuel verbose true
      modify fun r => { r with behindFrom := outer }
      takeClose start
      readItems fuel verbose first
        (⟨← behindExpr before negated body, .plain⟩ :: read) : Reader Expr) := by
  refine .get_bind fun r => ?_
  change Blind _
  refine .get_bind fun r' => ?_
  have hbody : Blind (do
      let body ← readAlternatives fuel verbose true
      modify fun r'' => { r'' with behindFrom := r.behindFrom }
      takeClose start
      readItems fuel verbose first
        (⟨← behindExpr r'.behindFault negated body, .plain⟩ :: read)) :=
    .bind (h.alternatives _ _) fun _ => .bind (.modify fun _ => rfl) fun _ =>
      .bind (blind_takeClose _) fun _ => .bind (blind_behindExpr _ _ _) fun _ => h.items _ _ _
  exact Blind.ite (.bind (.modify fun _ => rfl) fun _ => hbody) hbody

theorem items_succ (h : BlindNested fuel) (verbose first : Bool) (read : List Item) :
    Blind (readItems (fuel + 1) verbose first read) := by
  unfold readItems
  refine .bind blind_peek fun next => ?_
  split
  · exact .pure _
  · exact .pure _
  · exact .pure _
  refine .bind blind_take fun _ => ?_
  split
  · exact h.items _ _ _
  · exact .bind (blind_readEscape _) fun _ => h.items _ _ _
  refine .ite (h.items _ _ _) <|
    .ite (.bind blind_left fun _ => .bind (blind_skipTo _ _) fun _ => h.items _ _ _) <|
    .ite (.bind blind_readSet fun _ => h.items _ _ _) <| .ite (h.items _ _ _) <|
    .ite (h.items _ _ _) <| .ite (h.items _ _ _) <|
    .ite (.bind blind_position fun _ => .bind (blind_readRepeat _) fun bounds => ?_) <|
    .ite (.bind blind_position fun start => .bind (blind_takeIf _) fun _ =>
      .ite_bind (blind_readExtension _) (.pure _) fun opening => ?_) (h.items _ _ _)
  · split
    · exact h.items _ _ _
    refine .bind blind_position fun _ => ?_
    split
    · exact blind_refuse _ _
    · exact .unless (blind_refuse _ _) fun _ => .unless (blind_refuse _ _) fun _ =>
        .bind blind_readEagerness fun _ => h.items _ _ _
  cases opening with
  | comment => exact h.items _ _ _
  | flags => exact h.flags first (start - 1) read
  | reference group => exact h.items _ _ _
  | condition group => exact h.condition verbose first (start - 1) group read
  | capture name =>
    exact .bind (blind_openGroup _) fun _ => .bind (h.alternatives _ _) fun _ =>
      .bind (blind_takeClose _) fun _ => .bind (blind_closeGroup _ _) fun _ => h.items _ _ _
  | plain => exact h.body _ _ _ _ fun body => ⟨body, .plain⟩ :: read
  | atomic => exact h.body _ _ _ _ fun body => ⟨.atomic body, .plain⟩ :: read
  | «scoped» on off => exact h.body _ _ _ _ fun body => ⟨.scoped on off body, .plain⟩ :: read
  | ahead negated => exact h.body _ _ _ _ fun body => ⟨.ahead negated body, .plain⟩ :: read
  | behind negated => exact h.behind verbose first negated (start - 1) read

end BlindNested

theorem blindNested (fuel : Nat) : BlindNested fuel := by
  induction fuel with
  | zero => exact ⟨fun _ _ => .pure _, fun _ _ _ => .pure _, fun _ _ _ => .pure _⟩
  | succ fuel ih =>
    refine ⟨fun verbose nested => ?_, fun verbose nested read => ?_, ih.items_succ⟩
    · exact .bind (ih.items _ _ _) fun _ => ih.more _ _ _
    · refine .bind (blind_takeIf _) fun _ => .ite (.get_bind fun r => ?_) (.pure _)
      change Blind _
      exact .bind (ih.items _ _ _) fun _ => ih.more _ _ _

theorem blind_checkAlphabet : Blind checkAlphabet := by
  refine .get_bind fun r => ?_
  change Blind _
  exact .ite (.throw _) (.pure _)

theorem blind_readAll (fuel : Nat) (verbose : Bool) : Blind (readAll fuel verbose) := by
  refine .bind ((blindNested fuel).alternatives _ _) fun e =>
    .bind blind_checkAlphabet fun _ => .bind blind_peek fun _ =>
    .unless (blind_refuse _ _) fun _ => .get_bind fun r => ?_
  change Blind _
  split
  · exact .throw _
  · exact .pure _

end Pattern

open Pattern Reader

/-- **Reading does not look at the case of letters:** with letters taken in either case a text is
read as without, or refused for the same fault. -/
theorem Pattern.read_ignoringCase (flags : Pattern.Flags) (written : String) :
    Pattern.read flags.ignoringCase written =
      (Pattern.read flags written).map fun p => { p with flags := p.flags.ignoringCase } := by
  have hstart := checkNext_ignoringCase
    ⟨Sign.ofText written.toList, 0, flags, #[], [], none, [], [], none⟩
  have hread := blind_readAll (2 * (Sign.ofText written.toList).length + 4) flags.verbose
  unfold Pattern.read
  dsimp only [Reading.ignoringCase] at hstart ⊢
  simp only [hstart, Bind.bind]
  cases checkNext ⟨Sign.ofText written.toList, 0, flags, #[], [], none, [], [], none⟩ with
  | error fault => rfl
  | ok start =>
    dsimp only [Except.map, Except.bind]
    rw [Flags.verbose_ignoringCase, hread start]
    cases readAll (2 * (Sign.ofText written.toList).length + 4) flags.verbose start with
    | error fault => rfl
    | ok answer =>
      obtain ⟨e, r⟩ := answer
      dsimp only [Except.map]
      rw [Reading.behindFault_ignoringCase]
      cases r.behindFault <;> rfl

end DocHighlighter
