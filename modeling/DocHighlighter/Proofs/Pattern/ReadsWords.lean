/-
# The pattern for words can be read

Whatever the words are, the pattern for a whole one of them can be read (`exists_read_wholeWord`).
A reader of such a pattern goes from some signs to where others are left (`Reader.Goes`).  Signs
that can stand anywhere in a sequence (`IsPiece`) are put together to whole sequences (`IsBranch`),
these to alternatives (`AreAlternatives`), and alternatives to groups, which are pieces again.
-/

import DocHighlighter.Proofs.Pattern.WordForm

namespace DocHighlighter
namespace Pattern

/-! ## Going over signs -/

/-- A reading of signs that have no lone backslash among them, with nothing left to be checked. -/
structure Reading.Tidy (r : Reading) : Prop where
  whole : .dangling ∉ r.rest
  verbose : r.flags.verbose = false
  asked : r.asked = []
  letters : r.letters = []
  behindFault : r.behindFault = none

namespace Reader

variable {α β : Type} {before between after : List Sign}

/-- A reader that stands before some signs goes on to where others are left, with an answer of the
given kind. -/
def Goes (m : Reader α) (before after : List Sign) (P : α → Prop) : Prop :=
  ∀ r : Reading, r.Tidy → r.rest = before →
    ∃ a r', m r = .ok (a, r') ∧ r'.Tidy ∧ r'.rest = after ∧ P a

theorem Goes.bind {m : Reader α} {f : α → Reader β} {P : α → Prop} {Q : β → Prop}
    (hm : Goes m before between P) (hf : ∀ a, P a → Goes (f a) between after Q) :
    Goes (m >>= f) before after Q := by
  intro r hr hbefore
  obtain ⟨a, r', hrun, hr', hbetween, ha⟩ := hm r hr hbefore
  obtain ⟨b, r'', hrun', hb⟩ := hf a ha r' hr' hbetween
  refine ⟨b, r'', ?_, hb⟩
  simp only [Bind.bind, StateT.bind, hrun]
  exact hrun'

/-- Going on with the answer that is given. -/
theorem Goes.bind_eq {m : Reader α} {f : α → Reader β} {a : α} {Q : β → Prop}
    (hm : Goes m before between (· = a)) (hf : Goes (f a) between after Q) :
    Goes (m >>= f) before after Q :=
  hm.bind fun _ ha => ha ▸ hf

theorem Goes.get_bind {f : Reading → Reader β} {Q : β → Prop}
    (h : ∀ r : Reading, r.Tidy → Goes (f r) before after Q) : Goes (get >>= f) before after Q :=
  fun r hr hbefore => h r hr r hr hbefore

theorem Goes.imp {m : Reader α} {P Q : α → Prop} (h : Goes m before after P)
    (himp : ∀ a, P a → Q a) : Goes m before after Q := by
  intro r hr hbefore
  obtain ⟨a, r', hrun, hr', hafter, ha⟩ := h r hr hbefore
  exact ⟨a, r', hrun, hr', hafter, himp a ha⟩

theorem goes_pure (a : α) : Goes (pure a) after after (· = a) :=
  fun r hr hafter => ⟨a, r, rfl, hr, hafter, rfl⟩

theorem goes_return (a : α) : Goes (pure a) after after fun _ => True :=
  (goes_pure a).imp fun _ _ => trivial

theorem goes_peek : Goes peek after after (· = after.head?) :=
  fun r hr hafter => ⟨r.rest.head?, r, rfl, hr, hafter, by rw [hafter]⟩

theorem goes_position : Goes position after after fun _ => True :=
  fun r hr hafter => ⟨r.pos, r, rfl, hr, hafter, trivial⟩

theorem goes_left : Goes left after after (· = after.length) :=
  fun r hr hafter => ⟨r.rest.length, r, rfl, hr, hafter, by rw [hafter]⟩

theorem checkNext_eq {r : Reading} (h : .dangling ∉ r.rest) : checkNext r = .ok r := by
  unfold checkNext
  split
  · next heq =>
    rw [heq] at h
    exact absurd List.mem_cons_self h
  · rfl

theorem goes_take (s : Sign) : Goes take (s :: after) after (· = some s) := by
  intro r hr hbefore
  have hwhole : .dangling ∉ after := fun h =>
    hr.whole (hbefore ▸ List.mem_cons_of_mem s h)
  refine ⟨some s, { r with rest := after, pos := r.pos + s.written.length }, ?_,
    ⟨hwhole, hr.verbose, hr.asked, hr.letters, hr.behindFault⟩, rfl, rfl⟩
  unfold take
  rw [hbefore]
  dsimp only
  rw [checkNext_eq hwhole]
  rfl

theorem goes_nextIs (c : Char) :
    Goes (nextIs c) after after (· = (after.head? == some (.char c))) :=
  goes_peek.bind_eq (goes_pure _)

theorem goes_takeIf (c : Char) : Goes (takeIf c) (.char c :: after) after (· = true) := by
  refine (goes_nextIs c).bind_eq ?_
  rw [List.head?_cons, beq_self_eq_true]
  exact (goes_take _).bind_eq (goes_pure _)

theorem goes_takeIf_ne {c : Char} (h : after.head? ≠ some (.char c)) :
    Goes (takeIf c) after after (· = false) := by
  refine (goes_nextIs c).bind_eq ?_
  rw [beq_eq_false_iff_ne.2 h]
  exact goes_pure _

end Reader

open Reader

variable {after : List Sign}

/-! ## Sets -/

theorem setSign_ne {c d : Char} (hd : d ∈ ['[', '^', '\\', '-', ']']) : setSign c ≠ .char d := by
  unfold setSign
  split
  · exact Sign.noConfusion
  · next h =>
    rintro ⟨⟩
    exact h (List.contains_iff_mem.2 hd)

theorem goes_readSetSign (c : Char) :
    Goes (readSetSign (setSign c)) after after fun s => ∃ n, s = .code n := by
  unfold setSign
  split
  · next h =>
    rw [List.contains_iff_mem] at h
    simp only [List.mem_cons, List.not_mem_nil, or_false] at h
    obtain rfl | rfl | rfl | rfl | rfl := h <;> exact (goes_pure _).imp fun _ h => ⟨_, h⟩
  · exact (goes_pure _).imp fun _ h => ⟨_, h⟩

theorem goes_readSetItems (start : Nat) (cs : List Char) (first : Bool) (items : List SetItem)
    {fuel : Nat} (hcs : cs = [] → first = false) (hfuel : cs.length < fuel) :
    Goes (readSetItems start fuel first items) (cs.map setSign ++ .char ']' :: after) after
      fun _ => True := by
  induction cs generalizing fuel first items with
  | nil =>
    obtain ⟨fuel, rfl⟩ := Nat.exists_eq_succ_of_ne_zero (Nat.ne_of_gt hfuel)
    unfold readSetItems
    refine (goes_take _).bind_eq ?_
    rw [hcs rfl]
    exact goes_return _
  | cons c cs ih =>
    obtain ⟨fuel, rfl⟩ := Nat.exists_eq_succ_of_ne_zero (Nat.ne_of_gt (Nat.zero_lt_of_lt hfuel))
    unfold readSetItems
    refine (goes_take _).bind_eq ?_
    dsimp only
    rw [if_neg (by simp [setSign_ne])]
    refine (goes_readSetSign c).bind ?_
    rintro _ ⟨n, rfl⟩
    have hdash : (cs.map setSign ++ .char ']' :: after).head? ≠ some (.char '-') := by
      cases cs with
      | nil => simp
      | cons d cs => simp [setSign_ne]
    refine (goes_takeIf_ne hdash).bind_eq ?_
    exact ih false _ (fun _ => rfl) (Nat.lt_of_succ_lt_succ hfuel)

theorem goes_readSet {cs : List Char} (hcs : cs ≠ []) :
    Goes readSet (cs.map setSign ++ .char ']' :: after) after fun _ => True := by
  obtain ⟨c, cs, rfl⟩ := List.exists_cons_of_ne_nil hcs
  refine goes_position.bind fun _ _ => (goes_takeIf_ne ?_).bind_eq <| goes_left.bind_eq <|
    (goes_readSetItems _ (c :: cs) true [] (by simp) ?_).bind fun _ _ =>
      goes_return _
  · simp [setSign_ne]
  · rw [List.length_append, List.length_map, List.length_cons]
    omega

/-! ## Sequences -/

/-- What may stand behind a sequence. -/
def Ends (after : List Sign) : Prop :=
  ∀ s ∈ after.head?, s = .char '|' ∨ s = .char ')'

/-- Whatever has been read of a sequence, the reading goes on from some signs to where others are
left.  There is more than enough fuel if there are two steps for each sign. -/
def ReadsOn (first : Bool) (before after : List Sign) : Prop :=
  ∀ fuel items, 2 * before.length + 2 ≤ fuel →
    Goes (readItems fuel false first items) before after fun _ => True

/-- Signs that can stand anywhere in a sequence. -/
def IsPiece (signs : List Sign) : Prop :=
  ∀ first between after, ReadsOn first between after → ReadsOn first (signs ++ between) after

/-- Signs that make up a sequence. -/
def IsBranch (signs : List Sign) : Prop :=
  ∀ first after, Ends after → ReadsOn first (signs ++ after) after

theorem readsOn_of_succ {first : Bool} {before : List Sign}
    (h : ∀ fuel items, 2 * before.length + 1 ≤ fuel →
      Goes (readItems (fuel + 1) false first items) before after fun _ => True) :
    ReadsOn first before after
  | 0, _, hfuel => absurd hfuel (by omega)
  | fuel + 1, items, hfuel => h fuel items (by omega)

theorem readsOn_end {first : Bool} (h : Ends after) : ReadsOn first after after := by
  refine readsOn_of_succ fun fuel items _ => ?_
  rw [readItems]
  refine goes_peek.bind_eq ?_
  split
  · exact goes_return _
  · exact goes_return _
  · exact goes_return _
  · next s hbar hclose heq =>
    obtain rfl | rfl := h s heq
    · exact absurd rfl hbar
    · exact absurd rfl hclose

theorem IsPiece.isBranch {signs : List Sign} (h : IsPiece signs) : IsBranch signs :=
  fun first after hends => h first after after (readsOn_end hends)

theorem IsPiece.nil : IsPiece [] :=
  fun _ _ _ h => h

theorem IsPiece.append {signs signs' : List Sign} (h : IsPiece signs) (h' : IsPiece signs') :
    IsPiece (signs ++ signs') := by
  intro first between after hon
  rw [List.append_assoc]
  exact h first _ after (h' first between after hon)

theorem readEscape_of_mem {c : Char} (h : c ∈ escapedChars) :
    readEscape c = pure ⟨.char c, .plain⟩ := by
  unfold escapedChars at h
  fin_cases h <;> rfl

theorem isPiece_escape {c : Char} {i : Item} (h : readEscape c = pure i) : IsPiece [.escape c] := by
  intro first between after hon
  refine readsOn_of_succ fun fuel items hfuel => ?_
  change 2 * (between.length + 1) + 1 ≤ fuel at hfuel
  rw [readItems]
  refine goes_peek.bind_eq ((goes_take _).bind_eq ?_)
  dsimp only
  rw [h]
  exact (goes_pure i).bind_eq (hon fuel _ (by omega))

theorem isPiece_char {c : Char} (h : c ∉ escapedChars) : IsPiece [.char c] := by
  intro first between after hon
  refine readsOn_of_succ fun fuel items hfuel => ?_
  change 2 * (between.length + 1) + 1 ≤ fuel at hfuel
  have hne : ∀ d ∈ escapedChars, (c == d) = false := fun d hd => by
    rw [beq_eq_false_iff_ne]
    rintro rfl
    exact h hd
  rw [readItems]
  refine goes_peek.bind_eq ?_
  split
  · next heq => cases heq
  · next heq =>
    cases heq
    exact absurd (by decide) h
  · next heq =>
    cases heq
    exact absurd (by decide) h
  · next heq =>
    cases heq
    refine (goes_take _).bind_eq ?_
    simp only [hne '[' (by decide), hne '.' (by decide), hne '^' (by decide),
      hne '$' (by decide), hne '*' (by decide), hne '+' (by decide), hne '?' (by decide),
      hne '\x7b' (by decide), hne '(' (by decide), Bool.false_and, Bool.or_false,
      Bool.false_eq_true, if_false]
    exact hon fuel _ (by omega)

theorem isPiece_textSigns (cs : List Char) : IsPiece (textSigns cs) := by
  induction cs with
  | nil => exact .nil
  | cons c cs ih =>
    have hfirst : IsPiece [textSign c] := by
      unfold textSign
      split
      · next h => exact isPiece_escape (readEscape_of_mem (List.contains_iff_mem.1 h))
      · next h => exact isPiece_char fun hc => h (List.contains_iff_mem.2 hc)
    exact hfirst.append ih

theorem isPiece_setSigns {cs : List Char} (hcs : cs ≠ []) : IsPiece (setSigns cs) := by
  intro first between after hon
  refine readsOn_of_succ fun fuel items hfuel => ?_
  simp only [setSigns, List.cons_append, List.append_assoc, List.nil_append] at hfuel ⊢
  simp only [List.length_cons, List.length_append, List.length_map] at hfuel
  rw [readItems]
  refine goes_peek.bind_eq ((goes_take _).bind_eq ?_)
  exact (goes_readSet hcs).bind fun _ _ => hon fuel _ (by omega)

/-! ## Alternatives and groups -/

/-- Signs that are read as alternatives. -/
inductive AreAlternatives : List Sign → Prop
  | one {signs : List Sign} (h : IsBranch signs) : AreAlternatives signs
  | more {signs rest : List Sign} (h : IsBranch signs) (hrest : AreAlternatives rest) :
      AreAlternatives (signs ++ .char '|' :: rest)

theorem AreAlternatives.append {signs signs' : List Sign} (h : AreAlternatives signs)
    (h' : AreAlternatives signs') : AreAlternatives (signs ++ .char '|' :: signs') := by
  induction h with
  | one h => exact .more h h'
  | more h _ ih =>
    rw [List.append_assoc]
    exact .more h ih

/-- What may stand behind alternatives. -/
def Closes (after : List Sign) : Prop :=
  ∀ s ∈ after.head?, s = .char ')'

theorem Closes.ends (h : Closes after) : Ends after :=
  fun s hs => .inr (h s hs)

theorem closes_cons (after : List Sign) : Closes (.char ')' :: after) := by
  rintro _ ⟨⟩
  rfl

theorem goes_alternatives {signs : List Sign} (h : AreAlternatives signs) (hcloses : Closes after)
    {fuel : Nat} {first nested : Bool} {read : List Expr}
    (hfuel : 2 * (signs ++ after).length + 2 ≤ fuel) :
    Goes (do
      let one ← readItems fuel false first []
      readMore fuel false nested (one :: read)) (signs ++ after) after fun _ => True := by
  induction h generalizing fuel first read with
  | one h =>
    refine (h first after hcloses.ends fuel [] hfuel).bind fun one _ => ?_
    cases fuel with
    | zero => omega
    | succ fuel =>
      have hbar : after.head? ≠ some (.char '|') := fun hhead => by
        cases hcloses _ hhead
      exact (goes_takeIf_ne hbar).bind_eq (goes_return _)
  | @more signs rest h hrest ih =>
    rw [List.append_assoc] at hfuel ⊢
    have hends : Ends (.char '|' :: rest ++ after) := by
      rintro _ ⟨⟩
      exact .inl rfl
    refine (h first _ hends fuel [] hfuel).bind fun one _ => ?_
    simp only [List.length_append, List.length_cons] at hfuel
    cases fuel with
    | zero => omega
    | succ fuel =>
      refine (goes_takeIf '|').bind_eq (.get_bind fun r hr => ?_)
      dsimp only
      rw [hr.verbose, ite_self]
      exact ih (by rw [List.length_append]; omega)

theorem goes_readAlternatives {signs : List Sign} (h : AreAlternatives signs)
    (hcloses : Closes after) {fuel : Nat} {nested : Bool}
    (hfuel : 2 * (signs ++ after).length + 3 ≤ fuel) :
    Goes (readAlternatives fuel false nested) (signs ++ after) after fun _ => True := by
  cases fuel with
  | zero => omega
  | succ fuel => exact goes_alternatives h hcloses (by omega)

theorem goes_takeClose (start : Nat) :
    Goes (takeClose start) (.char ')' :: after) after fun _ => True :=
  (goes_takeIf ')').bind_eq (goes_return _)

/-- A group is one item, after which the sequence goes on. -/
theorem goes_group {body between : List Sign} (h : AreAlternatives body) {fuel : Nat} {first : Bool}
    {items : List Item} (hfuel : 2 * (groupSigns body ++ between).length + 1 ≤ fuel)
    (hon : ∀ e, Goes (readItems fuel false first (⟨e, .plain⟩ :: items)) between after
      fun _ => True) :
    Goes (readItems (fuel + 1) false first items) (groupSigns body ++ between) after
      fun _ => True := by
  simp only [groupSigns, List.cons_append, List.append_assoc, List.nil_append] at hfuel ⊢
  simp only [List.length_cons, List.length_append] at hfuel
  rw [readItems]
  refine goes_peek.bind_eq ((goes_take _).bind_eq ?_)
  refine goes_position.bind fun start _ => (goes_takeIf '?').bind_eq ?_
  have hopening : Goes (readExtension (start - 1)) (.char ':' :: (body ++ .char ')' :: between))
      (body ++ .char ')' :: between) (· = .plain) := (goes_take _).bind_eq (goes_pure _)
  refine hopening.bind_eq ((goes_readAlternatives h (closes_cons _) ?_).bind fun e _ =>
    (goes_takeClose _).bind fun _ _ => hon e)
  rw [List.length_append, List.length_cons]
  omega

theorem IsPiece.group {body : List Sign} (h : AreAlternatives body) :
    IsPiece (groupSigns body) := by
  intro first between after hon
  refine readsOn_of_succ fun fuel items hfuel => goes_group h hfuel fun e => hon fuel _ ?_
  simp only [groupSigns, List.length_append, List.length_cons] at hfuel
  omega

/-- A group that may be left out makes up a sequence. -/
theorem IsBranch.optional {body : List Sign} (h : AreAlternatives body) :
    IsBranch (groupSigns body ++ [.char '?']) := by
  intro first after hends
  rw [List.append_assoc]
  refine readsOn_of_succ fun fuel items hfuel => goes_group h hfuel fun e => ?_
  simp only [groupSigns, List.length_append, List.length_cons, List.length_nil] at hfuel
  have hlazy : after.head? ≠ some (.char '?') := fun hhead => by
    obtain h | h := hends _ hhead <;> cases h
  have hpossessive : after.head? ≠ some (.char '+') := fun hhead => by
    obtain h | h := hends _ hhead <;> cases h
  have heager : Goes readEagerness after after (· = .greedy) :=
    (goes_takeIf_ne hlazy).bind_eq ((goes_takeIf_ne hpossessive).bind_eq (goes_pure _))
  obtain ⟨fuel, rfl⟩ : ∃ n, fuel = n + 1 := ⟨fuel - 1, by omega⟩
  rw [readItems]
  refine goes_peek.bind_eq ((goes_take _).bind_eq (goes_position.bind fun _ _ => ?_))
  refine (goes_pure _).bind_eq (goes_position.bind fun _ _ => ?_)
  exact heager.bind_eq (readsOn_end hends fuel _ (by omega))

theorem IsPiece.capture {body : List Sign} (h : AreAlternatives body)
    (hplain : body.head? ≠ some (.char '?')) : IsPiece (.char '(' :: body ++ [.char ')']) := by
  intro first between after hon
  refine readsOn_of_succ fun fuel items hfuel => ?_
  rw [List.append_assoc] at hfuel ⊢
  change 2 * (body ++ .char ')' :: between).length + 3 ≤ fuel at hfuel
  change Goes _ (.char '(' :: (body ++ .char ')' :: between)) after _
  have hhead : (body ++ .char ')' :: between).head? ≠ some (.char '?') := by
    cases body with
    | nil => simp
    | cons s body => exact hplain
  have hopen (after : List Sign) : Goes (openGroup none) after after fun _ => True :=
    fun r hr hafter => ⟨_, _, rfl, ⟨hr.whole, hr.verbose, hr.asked, hr.letters, hr.behindFault⟩, hafter, trivial⟩
  have hclose (group : Nat) (e : Expr) (after : List Sign) :
      Goes (closeGroup group e) after after fun _ => True :=
    fun r hr hafter => ⟨_, _, rfl, ⟨hr.whole, hr.verbose, hr.asked, hr.letters, hr.behindFault⟩, hafter, trivial⟩
  rw [readItems]
  refine goes_peek.bind_eq ((goes_take _).bind_eq (goes_position.bind fun start _ => ?_))
  refine (goes_takeIf_ne hhead).bind_eq ((goes_pure _).bind_eq ?_)
  refine (hopen _).bind fun group _ =>
    (goes_readAlternatives h (closes_cons _) hfuel).bind fun e _ => ?_
  refine (goes_takeClose _).bind fun _ _ => (hclose group e _).bind fun _ _ => hon fuel _ ?_
  simp only [List.length_append, List.length_cons] at hfuel
  omega

/-! ## The whole pattern -/

theorem WordForm.areAlternatives : ∀ form : WordForm, AreAlternatives form.signs
  | text cs => .one (isPiece_textSigns cs).isBranch
  | oneOf c cs => .one (isPiece_setSigns (List.cons_ne_nil c cs)).isBranch
  | optional body => .one (.optional body.areAlternatives)
  | beginning cs body =>
    .one ((isPiece_textSigns cs).append (.group body.areAlternatives)).isBranch
  | ending body cs =>
    .one ((IsPiece.group body.areAlternatives).append (isPiece_textSigns cs)).isBranch
  | either a b => a.areAlternatives.append b.areAlternatives

theorem goes_checkAlphabet {after : List Sign} :
    Goes checkAlphabet after after fun _ => True := by
  refine .get_bind fun r hr => ?_
  rw [hr.letters]
  exact goes_return _

theorem goes_readAll {signs : List Sign} (h : AreAlternatives signs) {fuel : Nat}
    (hfuel : 2 * signs.length + 3 ≤ fuel) : Goes (readAll fuel false) signs [] fun _ => True := by
  have hread : Goes (readAlternatives fuel false false) (signs ++ []) [] fun _ => True :=
    goes_readAlternatives h (fun _ hs => by cases hs) (by rwa [List.append_nil])
  rw [List.append_nil] at hread
  refine hread.bind fun e _ => goes_checkAlphabet.bind fun _ _ =>
    goes_peek.bind_eq (.get_bind fun r hr => ?_)
  rw [hr.asked]
  exact goes_return _

/-- A text that is read as alternatives is a pattern. -/
theorem exists_read {signs : List Sign} (h : AreAlternatives signs)
    (hwritten : ∀ s ∈ signs, s.IsWritten) {flags : Flags} (hflags : flags.verbose = false) :
    ∃ p, Pattern.read flags (String.ofList (signs.flatMap Sign.written)) = .ok p := by
  have hsigns : Sign.ofText (String.ofList (signs.flatMap Sign.written)).toList = signs := by
    rw [String.toList_ofList, Sign.ofText_written hwritten]
  have hwhole : .dangling ∉ signs := fun h => hwritten _ h
  have hstart : checkNext ⟨signs, 0, flags, #[], [], none, [], [], none⟩ =
      .ok ⟨signs, 0, flags, #[], [], none, [], [], none⟩ := checkNext_eq hwhole
  obtain ⟨e, r, hread, hr, -⟩ := goes_readAll h (Nat.le_succ _)
    ⟨signs, 0, flags, #[], [], none, [], [], none⟩ ⟨hwhole, hflags, rfl, rfl, rfl⟩ rfl
  refine ⟨⟨e, r.flags⟩, ?_⟩
  unfold Pattern.read
  simp only [hsigns, hstart, hflags, hread, Bind.bind, Except.bind, hr.behindFault]
  rfl

/-- **Whatever the words are, the pattern for a whole one of them can be read.** -/
theorem exists_read_wholeWord (words : List (List Char)) {flags : Flags}
    (hflags : flags.verbose = false) : ∃ p, Pattern.read flags (wholeWordText words) = .ok p := by
  have hedge : IsPiece [.escape 'b'] := isPiece_escape rfl
  have hgroup := IsPiece.capture (wordForm (inOrder words)).areAlternatives
    (wordForm (inOrder words)).head?_signs
  have hwhole : AreAlternatives (wholeWordSigns words) :=
    .one ((hedge.append hgroup).append hedge).isBranch
  exact exists_read hwhole (isWritten_of_mem_wholeWordSigns words) hflags

end Pattern
end DocHighlighter
