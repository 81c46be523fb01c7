/-
# What the console shows of a message

A message is shown without its tags, and a text that was put into it for a path or a name may hold
tags too.  Then the message is not shown at all, if one of them closes what is not open, and else
the text is shown as something else.  It is shown as it is exactly if it is plain
(`Console.IsPlain`, `Console.IsError.shown_iff`):

| in a text | on the console |
|---|---|
| `[1]`, `[` | the same |
| `[b]` | nothing |
| `\[b]` | `[b]` |
| `\[` | `[` |
| `[/]`, `[/b]` | nothing where a tag is open, else a fault |
| a tab | spaces |
| a bell, a return | nothing |
-/

import DocHighlighter.Command.Console
import Mathlib.Data.List.TakeWhile

namespace DocHighlighter
namespace Console

variable {n k m : Nat} {text rest inside content u : List Char} {opened : List String}

/-! ## Reading a message -/

/-- Backslashes, and what is behind them. -/
theorem exists_slashes (text : List Char) :
    ∃ m tail, text = List.replicate m '\\' ++ tail ∧ tail.head? ≠ some '\\' := by
  have hslash : ∀ c ∈ text.takeWhile (· == '\\'), c = '\\' := fun c hc =>
    beq_iff_eq.1 (List.mem_takeWhile_imp (p := (· == '\\')) hc)
  refine ⟨(text.takeWhile (· == '\\')).length, text.dropWhile (· == '\\'), ?_, fun hhead => ?_⟩
  · rw [← List.eq_replicate_of_mem hslash, List.takeWhile_append_dropWhile]
  · have hnot := List.head?_dropWhile_not (· == '\\') text
    rw [hhead] at hnot
    cases hnot

theorem takeWhile_slashes (m : Nat) (h : text.head? ≠ some '\\') :
    (List.replicate m '\\' ++ text).takeWhile (· == '\\') = List.replicate m '\\' := by
  rw [List.takeWhile_append_of_pos fun c hc => beq_iff_eq.2 (List.eq_of_mem_replicate hc)]
  cases text with
  | nil => simp
  | cons c text => simp_all

/-- The open tags after another tag; `none` if it closes what is not open. -/
def afterTag? (opened : List String) (content : List Char) : Option (List String) :=
  match content with
  | '/' :: _ =>
    if (closedName content).isEmpty then opened.tail?
    else if opened.contains (styleName (closedName content)) then
      some (opened.erase (styleName (closedName content)))
    else none
  | _ => some (styleName (content.takeWhile (· != '=')) :: opened)

theorem afterTag?_of_opening (opened : List String) (h : content.head? ≠ some '/') :
    afterTag? opened content = some (styleName (content.takeWhile (· != '=')) :: opened) := by
  unfold afterTag?
  split
  · exact absurd rfl h
  · rfl

theorem textOf_of_opening (opened : List String) (h : content.head? ≠ some '/')
    (more : List Piece) : textOf opened (.tag k content :: more) =
      textOf (styleName (content.takeWhile (· != '=')) :: opened) more := by
  rw [textOf.eq_def]
  dsimp only
  split
  · exact absurd rfl h
  · rfl

theorem toOption_textOf_tag (opened : List String) (k : Nat) (content : List Char)
    (more : List Piece) : (textOf opened (.tag k content :: more)).toOption =
      (afterTag? opened content).bind fun opened => (textOf opened more).toOption := by
  by_cases hclosing : content.head? = some '/'
  · obtain ⟨name, rfl⟩ := List.head?_eq_some_iff.1 hclosing
    rw [textOf.eq_def]
    unfold afterTag?
    dsimp only
    split_ifs
    · cases opened <;> rfl
    · rfl
    · rfl
  · rw [textOf_of_opening opened hclosing, afterTag?_of_opening opened hclosing]
    rfl

theorem toOption_textOf_text (opened : List String) (content : List Char) (more : List Piece) :
    (textOf opened (.text content :: more)).toOption =
      (textOf opened more).toOption.map (content ++ ·) := by
  rw [textOf]
  cases textOf opened more <;> rfl

theorem pieces_of_slashes (n k : Nat) (htext : text.head? ≠ some '\\')
    (hother : text.head? ≠ some '[') :
    pieces (n + 1) k (List.replicate (m + 1) '\\' ++ text) =
      .text (List.replicate (m + 1) '\\') :: pieces n (k + (m + 1)) text := by
  have hrun := takeWhile_slashes (m + 1) htext
  rw [List.replicate_succ, List.cons_append] at hrun ⊢
  rw [pieces]
  dsimp only
  rw [hrun, List.length_cons, List.length_replicate, List.drop_succ_cons, List.drop_left']
  · cases text with
    | nil => rfl
    | cons c text =>
      split
      · next h => exact absurd (congrArg List.head? h) hother
      · rfl
  · exact List.length_replicate

theorem pieces_of_bracket (n k : Nat) (h : tagAt? inside = none) :
    pieces (n + 1) k (List.replicate m '\\' ++ '[' :: inside) =
      .text (List.replicate (m - 1) '\\' ++ ['[']) :: pieces n (k + m + 1) inside := by
  have hrun : (List.replicate m '\\' ++ '[' :: inside).takeWhile (· == '\\') =
      List.replicate m '\\' := takeWhile_slashes m (by simp)
  cases m with
  | zero => simp [pieces, h]
  | succ m =>
    rw [List.replicate_succ, List.cons_append] at hrun ⊢
    rw [pieces]
    dsimp only
    rw [hrun, List.length_cons, List.length_replicate, List.drop_succ_cons, List.drop_left']
    · simp [h]
    · exact List.length_replicate

theorem pieces_of_tag (n k : Nat) (h : tagAt? inside = some (content, rest)) :
    pieces (n + 1) k (List.replicate m '\\' ++ '[' :: inside) =
      .text (List.replicate (m / 2) '\\') ::
        (if m % 2 = 1 then .text ('[' :: content ++ [']']) else .tag (k + m) content) ::
          pieces n (k + m + content.length + 2) rest := by
  have hrun : (List.replicate m '\\' ++ '[' :: inside).takeWhile (· == '\\') =
      List.replicate m '\\' := takeWhile_slashes m (by simp)
  cases m with
  | zero => simp [pieces, h]
  | succ m =>
    rw [List.replicate_succ, List.cons_append] at hrun ⊢
    rw [pieces]
    dsimp only
    rw [hrun, List.length_cons, List.length_replicate, List.drop_succ_cons, List.drop_left']
    · simp only [h, beq_iff_eq]
      split_ifs <;> rfl
    · exact List.length_replicate

theorem pieces_of_char (n k : Nat) {c : Char} (hslash : c ≠ '\\') (hbracket : c ≠ '[') :
    pieces (n + 1) k (c :: text) = .text [c] :: pieces n (k + 1) text := by
  rw [pieces]
  have hnone : (c == '\\') = false := beq_false_of_ne hslash
  simp [hnone, hbracket]

/-- A tag, the bracket that ends it, and what stands behind. -/
theorem eq_of_tagAt (h : tagAt? inside = some (content, rest)) :
    inside = content ++ ']' :: rest := by
  unfold tagAt? at h
  split at h
  · next c text =>
    split_ifs at h
    dsimp only at h
    split at h
    · next tail htail =>
      obtain ⟨rfl, rfl⟩ := Prod.mk.inj (Option.some.inj h)
      rw [List.cons_append, ← htail, List.takeWhile_append_dropWhile]
    · cases h
  · cases h

theorem length_of_tagAt (h : tagAt? inside = some (content, rest)) :
    inside.length = content.length + 1 + rest.length := by
  rw [eq_of_tagAt h, List.length_append, List.length_cons]
  omega

/-- **How a text is read:** character by character, but for backslashes, brackets and tags. -/
theorem textInduction {motive : List Char → Prop} (nil : motive [])
    (char : ∀ c text, c ≠ '\\' → c ≠ '[' → motive text → motive (c :: text))
    (slashes : ∀ m text, text.head? ≠ some '\\' → text.head? ≠ some '[' → motive text →
      motive (List.replicate (m + 1) '\\' ++ text))
    (bracket : ∀ m inside, tagAt? inside = none → motive inside →
      motive (List.replicate m '\\' ++ '[' :: inside))
    (tag : ∀ m inside content rest, tagAt? inside = some (content, rest) → motive rest →
      motive (List.replicate m '\\' ++ '[' :: inside)) (text : List Char) : motive text := by
  induction hn : text.length using Nat.strongRecOn generalizing text with
  | ind n ih =>
    subst hn
    obtain ⟨m, tail, rfl, htail⟩ := exists_slashes text
    by_cases hbracket : tail.head? = some '['
    · obtain ⟨inside, rfl⟩ := List.head?_eq_some_iff.1 hbracket
      cases h : tagAt? inside with
      | none => exact bracket m inside h (ih _ (by simp; omega) inside rfl)
      | some found =>
        have hlength := length_of_tagAt h
        exact tag m inside found.1 found.2 h (ih _ (by simp; omega) found.2 rfl)
    · cases m with
      | zero =>
        cases tail with
        | nil => exact nil
        | cons c tail =>
          refine char c tail (fun h => htail (h ▸ rfl)) (fun h => hbracket (h ▸ rfl)) ?_
          exact ih _ (by simp) tail rfl
      | succ m => exact slashes m tail htail hbracket (ih _ (by simp) tail rfl)

/-- The text of a message, if its tags fit to those that are open. -/
def spokenFrom? (opened : List String) (text : List Char) : Option (List Char) :=
  (textOf opened (pieces (text.length + 1) 0 text)).toOption

/-- What a text is read as depends neither on where it stands nor on the bound. -/
theorem toOption_textOf_pieces (opened : List String) {n n' : Nat} (k k' : Nat)
    (hn : text.length < n) (hn' : text.length < n') :
    (textOf opened (pieces n k text)).toOption = (textOf opened (pieces n' k' text)).toOption := by
  obtain ⟨n, rfl⟩ : ∃ i, n = i + 1 := ⟨n - 1, by omega⟩
  obtain ⟨n', rfl⟩ : ∃ i, n' = i + 1 := ⟨n' - 1, by omega⟩
  induction text using textInduction generalizing opened n n' k k' with
  | nil => rfl
  | char c text hslash hbracket ih =>
    rw [List.length_cons] at hn hn'
    obtain ⟨n, rfl⟩ : ∃ i, n = i + 1 := ⟨n - 1, by omega⟩
    obtain ⟨n', rfl⟩ : ∃ i, n' = i + 1 := ⟨n' - 1, by omega⟩
    rw [pieces_of_char _ k hslash hbracket, pieces_of_char _ k' hslash hbracket,
      toOption_textOf_text, toOption_textOf_text, ih _ _ _ n (by omega) n' (by omega)]
  | slashes m text hslash hbracket ih =>
    rw [List.length_append, List.length_replicate] at hn hn'
    obtain ⟨n, rfl⟩ : ∃ i, n = i + 1 := ⟨n - 1, by omega⟩
    obtain ⟨n', rfl⟩ : ∃ i, n' = i + 1 := ⟨n' - 1, by omega⟩
    rw [pieces_of_slashes _ k hslash hbracket, pieces_of_slashes _ k' hslash hbracket,
      toOption_textOf_text, toOption_textOf_text, ih _ _ _ n (by omega) n' (by omega)]
  | bracket m inside h ih =>
    rw [List.length_append, List.length_replicate, List.length_cons] at hn hn'
    obtain ⟨n, rfl⟩ : ∃ i, n = i + 1 := ⟨n - 1, by omega⟩
    obtain ⟨n', rfl⟩ : ∃ i, n' = i + 1 := ⟨n' - 1, by omega⟩
    rw [pieces_of_bracket _ k h, pieces_of_bracket _ k' h,
      toOption_textOf_text, toOption_textOf_text, ih _ _ _ n (by omega) n' (by omega)]
  | tag m inside content rest h ih =>
    have hlength := length_of_tagAt h
    rw [List.length_append, List.length_replicate, List.length_cons] at hn hn'
    obtain ⟨n, rfl⟩ : ∃ i, n = i + 1 := ⟨n - 1, by omega⟩
    obtain ⟨n', rfl⟩ : ∃ i, n' = i + 1 := ⟨n' - 1, by omega⟩
    rw [pieces_of_tag _ k h, pieces_of_tag _ k' h, toOption_textOf_text, toOption_textOf_text]
    split_ifs
    · rw [toOption_textOf_text, toOption_textOf_text, ih _ _ _ n (by omega) n' (by omega)]
    · rw [toOption_textOf_tag, toOption_textOf_tag]
      congr 2
      funext opened
      exact ih opened _ _ n (by omega) n' (by omega)

theorem spokenFrom?_nil (opened : List String) : spokenFrom? opened [] = some [] :=
  rfl

theorem spokenFrom?_char (opened : List String) {c : Char} (hslash : c ≠ '\\')
    (hbracket : c ≠ '[') :
    spokenFrom? opened (c :: text) = (spokenFrom? opened text).map (c :: ·) := by
  rw [spokenFrom?, List.length_cons, pieces_of_char _ 0 hslash hbracket, toOption_textOf_text]
  exact congrArg _ (toOption_textOf_pieces opened _ _ (by omega) (by omega))

theorem spokenFrom?_slashes (opened : List String) (htext : text.head? ≠ some '\\')
    (hother : text.head? ≠ some '[') :
    spokenFrom? opened (List.replicate (m + 1) '\\' ++ text) =
      (spokenFrom? opened text).map (List.replicate (m + 1) '\\' ++ ·) := by
  rw [spokenFrom?, pieces_of_slashes _ 0 htext hother, toOption_textOf_text]
  exact congrArg _ (toOption_textOf_pieces opened _ _ (by simp) (by omega))

theorem spokenFrom?_bracket (opened : List String) (h : tagAt? inside = none) :
    spokenFrom? opened (List.replicate m '\\' ++ '[' :: inside) =
      (spokenFrom? opened inside).map (List.replicate (m - 1) '\\' ++ '[' :: ·) := by
  rw [spokenFrom?, pieces_of_bracket _ 0 h, toOption_textOf_text]
  simp only [List.append_assoc, List.singleton_append]
  exact congrArg _ (toOption_textOf_pieces opened _ _ (by simp; omega) (by omega))

/-- A tag changes what is open, unless backslashes before it make it text. -/
theorem spokenFrom?_tag (opened : List String) (h : tagAt? inside = some (content, rest)) :
    spokenFrom? opened (List.replicate m '\\' ++ '[' :: inside) =
      if m % 2 = 1 then (spokenFrom? opened rest).map
        (List.replicate (m / 2) '\\' ++ '[' :: content ++ ']' :: ·)
      else (afterTag? opened content).bind fun opened =>
        (spokenFrom? opened rest).map (List.replicate (m / 2) '\\' ++ ·) := by
  have hlength := length_of_tagAt h
  have hrest : ∀ opened k, (textOf opened (pieces (List.replicate m '\\' ++ '[' :: inside).length k
      rest)).toOption = spokenFrom? opened rest := fun opened k =>
    toOption_textOf_pieces opened _ _ (by simp; omega) (by omega)
  rw [spokenFrom?, pieces_of_tag _ 0 h, toOption_textOf_text]
  split_ifs
  · rw [toOption_textOf_text, hrest, Option.map_map]
    congr 1
    funext u
    simp
  · rw [toOption_textOf_tag]
    simp only [hrest]
    cases afterTag? opened content <;> rfl

/-! ## A text within a message -/

/-- A text without brackets and backslashes. -/
def IsQuiet (text : List Char) : Prop :=
  ∀ c ∈ text, c ≠ '[' ∧ c ≠ ']' ∧ c ≠ '\\'

instance (text : List Char) : Decidable (IsQuiet text) :=
  decidable_of_iff (text.all fun c => c != '[' && c != ']' && c != '\\')
    (by simp [IsQuiet, and_assoc])

theorem IsQuiet.head?_ne (h : IsQuiet text) : text.head? ≠ some '[' ∧ text.head? ≠ some '\\' :=
  ⟨fun hhead => (h _ (List.mem_of_head? hhead)).1 rfl,
    fun hhead => (h _ (List.mem_of_head? hhead)).2.2 rfl⟩

theorem spokenFrom?_of_isQuiet (opened : List String) (h : IsQuiet text) :
    spokenFrom? opened text = some text := by
  induction text with
  | nil => rfl
  | cons c text ih =>
    obtain ⟨hc, htext⟩ := List.forall_mem_cons.1 h
    rw [spokenFrom?_char opened hc.2.2 hc.1, ih htext]
    rfl

/-- A quiet text opens and ends no tag. -/
theorem tagAt?_append (hquiet : IsQuiet rest) (inside : List Char) :
    tagAt? (inside ++ rest) = (tagAt? inside).map fun found => (found.1, found.2 ++ rest) := by
  have hinside : ∀ c ∈ rest, (c != ']' && c != '[') = true := fun c hc => by
    simp [hquiet c hc]
  cases inside with
  | nil =>
    cases rest with
    | nil => rfl
    | cons c rest =>
      have hrest : ∀ d ∈ rest, (d != ']' && d != '[') = true :=
        fun d hd => hinside d (List.mem_cons_of_mem _ hd)
      rw [List.nil_append, tagAt?]
      dsimp only
      rw [List.dropWhile_eq_nil_iff.2 hrest, ite_self]
      rfl
  | cons c inside =>
    rw [List.cons_append, tagAt?, tagAt?]
    dsimp only
    split_ifs
    · rw [List.dropWhile_append, List.takeWhile_append]
      cases hdrop : inside.dropWhile fun d => d != ']' && d != '[' with
      | nil => simp [List.dropWhile_eq_nil_iff.2 hinside]
      | cons d tail =>
        have hlength := congrArg List.length
          (List.takeWhile_append_dropWhile (p := fun d => d != ']' && d != '[') (l := inside))
        rw [hdrop, List.length_append, List.length_cons] at hlength
        rw [if_neg (by simp), if_neg (by omega)]
        by_cases hclose : d = ']'
        · simp [hclose]
        · simp [hclose]
    · rfl

theorem spokenFrom?_append (hquiet : IsQuiet rest) (opened : List String) (text : List Char) :
    spokenFrom? opened (text ++ rest) = (spokenFrom? opened text).map (· ++ rest) := by
  induction text using textInduction generalizing opened with
  | nil => exact spokenFrom?_of_isQuiet opened hquiet
  | char c text hslash hbracket ih =>
    rw [List.cons_append, spokenFrom?_char opened hslash hbracket, ih,
      spokenFrom?_char opened hslash hbracket, Option.map_map, Option.map_map]
    rfl
  | slashes m text hslash hbracket ih =>
    obtain ⟨hslash', hbracket'⟩ : (text ++ rest).head? ≠ some '\\' ∧
        (text ++ rest).head? ≠ some '[' := by
      cases text with
      | nil => exact hquiet.head?_ne.symm
      | cons c text => exact ⟨hslash, hbracket⟩
    rw [List.append_assoc, spokenFrom?_slashes opened hslash' hbracket', ih,
      spokenFrom?_slashes opened hslash hbracket, Option.map_map, Option.map_map]
    simp [Function.comp_def]
  | bracket m inside h ih =>
    have h' : tagAt? (inside ++ rest) = none := by rw [tagAt?_append hquiet, h]; rfl
    rw [List.append_assoc, List.cons_append, spokenFrom?_bracket opened h', ih,
      spokenFrom?_bracket opened h, Option.map_map, Option.map_map]
    simp [Function.comp_def]
  | tag m inside content tail h ih =>
    have h' : tagAt? (inside ++ rest) = some (content, tail ++ rest) := by
      rw [tagAt?_append hquiet, h]; rfl
    rw [List.append_assoc, List.cons_append, spokenFrom?_tag opened h', spokenFrom?_tag opened h]
    split_ifs
    · rw [ih, Option.map_map, Option.map_map]
      simp [Function.comp_def]
    · cases afterTag? opened content with
      | none => rfl
      | some opened' =>
        simp only [Option.bind_some, ih, Option.map_map]
        simp [Function.comp_def]

/-! ## Texts that are shown as they are -/

/-- Whether no bracket begins a tag, and none has a backslash before it. -/
def hasNoTag : List Char → Bool
  | [] => true
  | '[' :: inside => (tagAt? inside).isNone && hasNoTag inside
  | '\\' :: rest => rest.head? != some '[' && hasNoTag rest
  | _ :: rest => hasNoTag rest

theorem hasNoTag_slashes (m : Nat) (h : text.head? ≠ some '[') :
    hasNoTag (List.replicate m '\\' ++ text) = hasNoTag text := by
  induction m with
  | zero => rfl
  | succ m ih =>
    rw [List.replicate_succ, List.cons_append, hasNoTag, ih]
    cases m with
    | zero => simp [h]
    | succ m => simp [List.replicate_succ]

theorem hasNoTag_bracket (m : Nat) (inside : List Char) :
    hasNoTag (List.replicate m '\\' ++ '[' :: inside) =
      (m == 0 && (tagAt? inside).isNone && hasNoTag inside) := by
  induction m with
  | zero => simp [hasNoTag]
  | succ m ih =>
    rw [List.replicate_succ, List.cons_append, hasNoTag, ih]
    cases m with
    | zero => simp
    | succ m => simp

/-- What is shown of a text are some of its characters, in order. -/
theorem sublist_of_spokenFrom (h : spokenFrom? opened text = some u) : u.Sublist text := by
  induction text using textInduction generalizing opened u with
  | nil =>
    obtain rfl := Option.some.inj h
    exact List.Sublist.refl []
  | char c text hslash hbracket ih =>
    rw [spokenFrom?_char opened hslash hbracket] at h
    obtain ⟨v, hv, rfl⟩ := Option.map_eq_some_iff.1 h
    exact (ih hv).cons_cons c
  | slashes m text hslash hbracket ih =>
    rw [spokenFrom?_slashes opened hslash hbracket] at h
    obtain ⟨v, hv, rfl⟩ := Option.map_eq_some_iff.1 h
    exact (ih hv).append_left _
  | bracket m inside hnone ih =>
    rw [spokenFrom?_bracket opened hnone] at h
    obtain ⟨v, hv, rfl⟩ := Option.map_eq_some_iff.1 h
    exact ((List.replicate_sublist_replicate _).2 (Nat.sub_le m 1)).append ((ih hv).cons_cons _)
  | tag m inside content rest hsome ih =>
    rw [spokenFrom?_tag opened hsome] at h
    have hslashes : (List.replicate (m / 2) '\\').Sublist (List.replicate m '\\') :=
      (List.replicate_sublist_replicate _).2 (Nat.div_le_self m 2)
    split_ifs at h
    · obtain ⟨v, hv, rfl⟩ := Option.map_eq_some_iff.1 h
      rw [List.append_assoc, eq_of_tagAt hsome]
      exact hslashes.append ((((ih hv).cons_cons _).append_left content).cons_cons _)
    · obtain ⟨opened', -, h⟩ := Option.bind_eq_some_iff.1 h
      obtain ⟨v, hv, rfl⟩ := Option.map_eq_some_iff.1 h
      refine hslashes.append ((ih hv).trans (List.IsSuffix.sublist ?_))
      rw [eq_of_tagAt hsome]
      exact ⟨'[' :: content ++ [']'], by simp⟩

/-- Of a text that begins with a tag less is shown than there is: the tag vanishes, or a backslash
that makes it text. -/
theorem length_lt_of_spokenFrom_tag (hsome : tagAt? inside = some (content, rest))
    (h : spokenFrom? opened (List.replicate m '\\' ++ '[' :: inside) = some u) :
    u.length < (List.replicate m '\\' ++ '[' :: inside).length := by
  have hinside := length_of_tagAt hsome
  rw [spokenFrom?_tag opened hsome] at h
  rw [List.length_append, List.length_replicate, List.length_cons]
  split_ifs at h with hodd
  · obtain ⟨v, hv, rfl⟩ := Option.map_eq_some_iff.1 h
    have hle := (sublist_of_spokenFrom hv).length_le
    simp only [List.length_append, List.length_replicate, List.length_cons]
    omega
  · obtain ⟨opened', -, h⟩ := Option.bind_eq_some_iff.1 h
    obtain ⟨v, hv, rfl⟩ := Option.map_eq_some_iff.1 h
    have hle := (sublist_of_spokenFrom hv).length_le
    simp only [List.length_append, List.length_replicate]
    omega

/-- **A text is shown as it is exactly if it has no tag,** whatever is open. -/
theorem spokenFrom?_eq_self_iff (opened : List String) (text : List Char) :
    spokenFrom? opened text = some text ↔ hasNoTag text = true := by
  induction text using textInduction generalizing opened with
  | nil => simp [hasNoTag, spokenFrom?_nil]
  | char c text hslash hbracket ih =>
    rw [spokenFrom?_char opened hslash hbracket, hasNoTag, ← ih opened]
    · cases spokenFrom? opened text <;> simp
    · exact hbracket
    · exact hslash
  | slashes m text hslash hbracket ih =>
    rw [spokenFrom?_slashes opened hslash hbracket, hasNoTag_slashes _ hbracket, ← ih opened]
    cases spokenFrom? opened text <;> simp
  | bracket m inside hnone ih =>
    rw [spokenFrom?_bracket opened hnone, hasNoTag_bracket, hnone]
    constructor
    · intro h
      obtain ⟨v, hv, hsame⟩ := Option.map_eq_some_iff.1 h
      have hle := (sublist_of_spokenFrom hv).length_le
      have hlength := congrArg List.length hsame
      simp only [List.length_append, List.length_replicate, List.length_cons] at hlength
      obtain rfl : m = 0 := by omega
      obtain rfl := (List.cons.inj hsame).2
      simpa using (ih opened).1 hv
    · intro h
      simp only [Option.isNone_none, Bool.and_true, Bool.and_eq_true, beq_iff_eq] at h
      obtain ⟨rfl, h⟩ := h
      rw [(ih opened).2 h]
      rfl
  | tag m inside content rest hsome ih =>
    rw [hasNoTag_bracket, hsome]
    exact ⟨fun h => absurd (length_lt_of_spokenFrom_tag hsome h) (Nat.lt_irrefl _),
      fun h => by simp at h⟩

/-! ## Lines of the console -/

theorem tab_not_mem_expandTabs (width : Nat) (text : List Char) :
    '\t' ∉ Text.expandTabs width text := by
  have hgo : ∀ column, '\t' ∉ Text.expandTabs.go width column text := by
    induction text with
    | nil => simp [Text.expandTabs.go]
    | cons c text ih =>
      intro column
      by_cases hc : c = '\t'
      · subst hc
        simp [Text.expandTabs.go, ih]
      · rw [Text.expandTabs.go]
        · simp [Ne.symm hc, ih]
        · exact hc
  exact hgo 0

theorem expandTabs_of_not_mem (width : Nat) (h : '\t' ∉ text) :
    Text.expandTabs width text = text := by
  have hgo : ∀ column, Text.expandTabs.go width column text = text := by
    induction text with
    | nil => exact fun _ => rfl
    | cons c text ih =>
      intro column
      obtain ⟨hc, htext⟩ := not_or.1 fun hmem => h (List.mem_cons.2 hmem)
      rw [Text.expandTabs.go, ih htext]
      exact Ne.symm hc
  exact hgo 0

theorem shown_eq_ok_iff {message : String} {line : List Char} :
    shown message = .ok line ↔ ∃ text, spokenFrom? [] message.toList = some text ∧
      line = Text.expandTabs 8 (text.filter (!isControl ·)) ++ ['\n'] := by
  unfold shown spokenFrom?
  dsimp only
  cases textOf [] (pieces (message.toList.length + 1) 0 message.toList) with
  | error fault => simp [Except.toOption]
  | ok text => simp [Except.toOption, eq_comm]

/-- Whether no tag of a text closes what the text has not opened. -/
def isReadable (text : List Char) : Bool :=
  (spokenFrom? [] text).isSome

/-- Every character is shown as it is, if no tag goes by. -/
def IsVisible (text : List Char) : Prop :=
  ∀ c ∈ text, isControl c = false ∧ c ≠ '\t'

instance (text : List Char) : Decidable (IsVisible text) :=
  decidable_of_iff (text.all fun c => !isControl c && c != '\t') (by simp [IsVisible])

/-- **A text is plain** if it has no tags and all its characters are shown as they are. -/
structure IsPlain (text : List Char) : Prop where
  tags : hasNoTag text = true
  visible : IsVisible text

theorem IsPlain.isReadable (h : IsPlain text) : isReadable text = true := by
  rw [Console.isReadable, (spokenFrom?_eq_self_iff [] text).2 h.tags]
  rfl

theorem spokenFrom?_quiet_append (hquiet : IsQuiet u) (opened : List String) (text : List Char) :
    spokenFrom? opened (u ++ text) = (spokenFrom? opened text).map (u ++ ·) := by
  induction u with
  | nil => simp
  | cons c u ih =>
    obtain ⟨hc, hu⟩ := List.forall_mem_cons.1 hquiet
    rw [List.cons_append, spokenFrom?_char opened hc.2.2 hc.1, ih hu, Option.map_map]
    rfl

/-- A quiet text around another makes no difference. -/
theorem isPlain_append_iff {before behind : List Char} (hquiet : IsQuiet before ∧ IsQuiet behind)
    (hvisible : IsVisible before ∧ IsVisible behind) :
    IsPlain (before ++ (text ++ behind)) ↔ IsPlain text := by
  have htags : hasNoTag (before ++ (text ++ behind)) = true ↔ hasNoTag text = true := by
    rw [← spokenFrom?_eq_self_iff [], ← spokenFrom?_eq_self_iff [],
      spokenFrom?_quiet_append hquiet.1, spokenFrom?_append hquiet.2]
    cases spokenFrom? [] text <;> simp
  constructor
  · rintro ⟨htag, hall⟩
    refine ⟨htags.1 htag, fun c hc => hall c ?_⟩
    exact List.mem_append_right _ (List.mem_append_left _ hc)
  · rintro ⟨htag, htext⟩
    exact ⟨htags.2 htag, List.forall_mem_append.2
      ⟨hvisible.1, List.forall_mem_append.2 ⟨htext, hvisible.2⟩⟩⟩

/-- A tag with no backslash before it. -/
theorem spokenFrom?_bareTag {opened' : List String} (h : tagAt? inside = some (content, rest))
    (hopened : afterTag? opened content = some opened') :
    spokenFrom? opened ('[' :: inside) = spokenFrom? opened' rest := by
  have htag := spokenFrom?_tag (m := 0) opened h
  rw [if_neg (by decide), hopened] at htag
  simpa using htag

/-- What error messages begin with is shown in a style, and that ends again. -/
theorem spokenFrom?_error (text : List Char) :
    spokenFrom? [] ("[red]Error:[/] ".toList ++ text) =
      (spokenFrom? [] text).map ("Error: ".toList ++ ·) := by
  have hred : tagAt? ("red]Error:[/] ".toList ++ text) =
      some ("red".toList, "Error:[/] ".toList ++ text) := by
    simp [tagAt?, startsTag]
  have hclose : tagAt? ("/] ".toList ++ text) = some ("/".toList, " ".toList ++ text) := by
    simp [tagAt?, startsTag]
  have hword : IsQuiet "Error:".toList := by decide
  calc spokenFrom? [] ("[red]Error:[/] ".toList ++ text)
      = spokenFrom? ["red"] ("Error:".toList ++ ('[' :: ("/] ".toList ++ text))) :=
        spokenFrom?_bareTag hred (by decide)
    _ = (spokenFrom? [] (" ".toList ++ text)).map ("Error:".toList ++ ·) := by
        rw [spokenFrom?_quiet_append hword]
        exact congrArg _ (spokenFrom?_bareTag hclose (by decide))
    _ = (spokenFrom? [] text).map ("Error: ".toList ++ ·) := by
        rw [spokenFrom?_quiet_append (by decide), Option.map_map]
        rfl

/-! ## Error messages -/

section Error

variable {message : String} {before behind given : List Char}

/-- What an error message says: something, a text, and something more. -/
structure IsError (message : String) (before text behind : List Char) : Prop where
  message : message.toList = "[red]Error:[/] ".toList ++ (before ++ (text ++ behind))
  quiet : IsQuiet before ∧ IsQuiet behind
  visible : IsVisible before ∧ IsVisible behind

theorem IsError.spokenFrom?_eq (h : IsError message before text behind) :
    spokenFrom? [] message.toList = (spokenFrom? [] text).map fun u =>
      "Error: ".toList ++ (before ++ (u ++ behind)) := by
  rw [h.message, spokenFrom?_error, spokenFrom?_quiet_append h.quiet.1,
    spokenFrom?_append h.quiet.2, Option.map_map, Option.map_map]
  rfl

/-- **An error message is shown exactly if its text is readable.** -/
theorem IsError.exists_shown_iff (h : IsError message before text behind) :
    (∃ line, shown message = .ok line) ↔ isReadable text = true := by
  simp only [shown_eq_ok_iff, h.spokenFrom?_eq, isReadable]
  cases spokenFrom? [] text <;> simp

theorem IsVisible.filter_eq (h : IsVisible text) : text.filter (!isControl ·) = text :=
  List.filter_eq_self.2 fun c hc => by rw [(h c hc).1]; rfl

theorem IsVisible.append (h : IsVisible text) (hrest : IsVisible rest) :
    IsVisible (text ++ rest) :=
  List.forall_mem_append.2 ⟨h, hrest⟩

theorem IsVisible.tab_not_mem (h : IsVisible text) : '\t' ∉ text :=
  fun hmem => (h _ hmem).2 rfl

/-- **A text is shown as it was given in an error message exactly if it is plain,** and was put
into it as it was given. -/
theorem IsError.shown_iff (h : IsError message before text behind) (hsub : text.Sublist given) :
    shown message = .ok ("Error: ".toList ++ (before ++ (given ++ behind)) ++ ['\n']) ↔
      text = given ∧ IsPlain text := by
  have hstart : IsVisible "Error: ".toList := by decide
  rw [shown_eq_ok_iff]
  simp only [h.spokenFrom?_eq, Option.map_eq_some_iff]
  constructor
  · rintro ⟨_, ⟨u, hu, rfl⟩, hline⟩
    rw [List.append_left_inj] at hline
    -- no tab is shown, so there was none
    have htab : '\t' ∉ given := by
      have hnone := tab_not_mem_expandTabs 8 (List.filter (fun c => !isControl c)
        ("Error: ".toList ++ (before ++ (u ++ behind))))
      rw [← hline] at hnone
      exact fun hmem => hnone (by simp [hmem])
    have hutext := sublist_of_spokenFrom hu
    have hnone : '\t' ∉ "Error: ".toList ++ (before ++ (u ++ behind)) := by
      have hstart := hstart.tab_not_mem
      have hbefore := h.visible.1.tab_not_mem
      have hbehind := h.visible.2.tab_not_mem
      have hu : '\t' ∉ u := fun hmem => htab ((hutext.trans hsub).subset hmem)
      simp only [List.mem_append, not_or]
      exact ⟨hstart, hbefore, hu, hbehind⟩
    rw [expandTabs_of_not_mem _ fun hmem => hnone (List.mem_filter.1 hmem).1] at hline
    simp only [List.filter_append, hstart.filter_eq, h.visible.1.filter_eq,
      h.visible.2.filter_eq, List.append_cancel_left_eq, List.append_cancel_right_eq] at hline
    -- what is given is shown of a part of it, so it is all of it
    have hgiven : given.Sublist u := hline ▸ List.filter_sublist
    obtain rfl := hutext.eq_of_length_le (hsub.trans hgiven).length_le
    obtain rfl := hgiven.eq_of_length_le hsub.length_le
    refine ⟨rfl, (spokenFrom?_eq_self_iff [] _).1 hu, fun c hc => ⟨?_, fun hc' => ?_⟩⟩
    · simpa using List.filter_eq_self.1 hline.symm c hc
    · exact htab (hc' ▸ hc)
  · rintro ⟨rfl, hplain⟩
    refine ⟨_, ⟨text, (spokenFrom?_eq_self_iff [] text).2 hplain.tags, rfl⟩, ?_⟩
    have hall := hstart.append (h.visible.1.append (hplain.visible.append h.visible.2))
    rw [hall.filter_eq, expandTabs_of_not_mem _ hall.tab_not_mem]

end Error

end Console
end DocHighlighter
