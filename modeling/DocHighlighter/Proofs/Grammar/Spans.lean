/-
# Spans

A reader that has opened a rule reads on until the rule is closed again, or the text is over: what it
reads up to there is the span of the rule (`Grammar.SpanFrom`), and that is determined
(`SpanFrom.unique`).

A rule without inner rules has the span that one expects.  Nothing is opened inside, so all its
tokens are of the kind of the rule, and it ends at the first place where its closing matches, or at
the end of the text if there is none (`Grammar.exists_spanFrom`).  What closes the rules around it
plays no part.

A span inside another one is data about the reading of a text (`Grammar.NestedSpan`): its tokens
stand among the tokens of the text (`NestedSpan.exists_reads`).
-/

import DocHighlighter.Proofs.Grammar.Lossless
import DocHighlighter.Proofs.Grammar.Refines
import DocHighlighter.Proofs.Pattern.Sequences

namespace DocHighlighter

open Text (Cursor)

/-- What lies between two places and what lies between the second and a third. -/
theorem Text.Cursor.LeadsTo.upTo_append {c d e : Cursor} (h : c.LeadsTo d) (h' : d.LeadsTo e) :
    c.upTo d ++ d.upTo e = c.upTo e := by
  have hall := (h.trans h').after_eq
  rw [h.after_eq, h'.after_eq, ← List.append_assoc] at hall
  exact List.append_cancel_right hall

/-- The first place from here on that is of a kind, or the end of the text. -/
def Text.Cursor.seek (p : Cursor → Bool) (c : Cursor) : Cursor :=
  if p c then c
  else
    match h : c.next? with
    | some (_, d) =>
      have : d.remaining < c.remaining := by
        have := Cursor.remaining_eq_of_next? h
        omega
      d.seek p
    | none => c
termination_by c.remaining

namespace Text.Cursor

variable {p : Cursor → Bool} {c d : Cursor} {a : Char}

theorem seek_of_holds (h : p c = true) : c.seek p = c := by
  rw [seek, if_pos h]

theorem seek_of_next? (h : p c = false) (hnext : c.next? = some (a, d)) : c.seek p = d.seek p := by
  rw [seek, if_neg (Bool.eq_false_iff.1 h)]
  split
  · next a' d' hnext' =>
    obtain ⟨-, rfl⟩ := Prod.mk.inj (Option.some.inj (hnext.symm.trans hnext'))
    rfl
  · next hnone =>
    rw [hnext] at hnone
    cases hnone

theorem seek_of_end (hnext : c.next? = none) : c.seek p = c := by
  rw [seek]
  split
  · rfl
  · split
    · next a' d' hnext' =>
      rw [hnext] at hnext'
      cases hnext'
    · rfl

/-- A reader of characters that goes on until a place of a kind: by induction along the text. -/
theorem seek_induction {P : Cursor → Prop} (p : Cursor → Bool) (here : ∀ c, p c = true → P c)
    (ended : ∀ c, p c = false → c.next? = none → P c)
    (next : ∀ c a d, p c = false → c.next? = some (a, d) → P d → P c) (c : Cursor) : P c := by
  induction hn : c.remaining generalizing c with
  | zero =>
    cases hp : p c with
    | true => exact here c hp
    | false =>
      cases hc : c.next? with
      | none => exact ended c hp hc
      | some next =>
        have := remaining_eq_of_next? hc
        omega
  | succ n ih =>
    cases hp : p c with
    | true => exact here c hp
    | false =>
      cases hc : c.next? with
      | none => exact ended c hp hc
      | some next' =>
        have hremaining := remaining_eq_of_next? hc
        exact next c next'.1 next'.2 hp hc (ih next'.2 (by omega))

end Text.Cursor

namespace Grammar

variable {g : Grammar}

/-! ## Reading on the way -/

/-- A reader reads some tokens on its way from where it stands to somewhere else. -/
inductive ReadsTo (g : Grammar) : TreeReader → List Token → TreeReader → Prop
  | refl (k : TreeReader) : g.ReadsTo k [] k
  | next {k k' k'' : TreeReader} {first rest : List Token} (h : g.read? k = some (first, k'))
      (hrest : g.ReadsTo k' rest k'') : g.ReadsTo k (first ++ rest) k''

section ReadsTo

variable {k k' k'' : TreeReader} {tokens more : List Token}

theorem ReadsTo.trans (h : g.ReadsTo k tokens k') (h' : g.ReadsTo k' more k'') :
    g.ReadsTo k (tokens ++ more) k'' := by
  induction h with
  | refl => exact h'
  | next hread _ ih =>
    rw [List.append_assoc]
    exact .next hread (ih h')

/-- A reader that comes to an end has passed every place that it comes to. -/
theorem ReadsTo.exists_rest (h : g.ReadsTo k tokens k') (hall : g.ReadsFrom k more) :
    ∃ rest, more = tokens ++ rest ∧ g.ReadsFrom k' rest := by
  induction h generalizing more with
  | refl => exact ⟨more, rfl, hall⟩
  | next hread _ ih =>
    cases hall with
    | done hend => rw [hread] at hend; cases hend
    | next hread' hrest' =>
      obtain ⟨rfl, rfl⟩ := Prod.mk.inj (Option.some.inj (hread.symm.trans hread'))
      obtain ⟨rest, rfl, hrest⟩ := ih hrest'
      exact ⟨rest, (List.append_assoc ..).symm, hrest⟩

/-- The open rules of a reader, each among the inner rules of the one around it. -/
def Opened (g : Grammar) : List SpanRule → Prop
  | [] => True
  | r :: opened => r ∈ g.candidates opened ∧ r.closing.isSome ∧ g.Opened opened

theorem mem_of_opening? {rules : List SpanRule} {c d : Cursor} {r : SpanRule}
    (h : g.opening? rules c = some (r, d)) : r ∈ rules ∧ g.matchEnd? r.opening c = some d := by
  obtain ⟨r', hr', hmatch⟩ := List.exists_of_findSome?_eq_some h
  obtain ⟨e, he, hsame⟩ := Option.map_eq_some_iff.1 hmatch
  obtain ⟨rfl, rfl⟩ := Prod.mk.inj hsame
  exact ⟨hr', he⟩

/-- What a reader has open stays a chain of rules. -/
theorem Opened.read? (h : g.Opened k.opened) (hread : g.read? k = some (tokens, k')) :
    g.Opened k'.opened := by
  obtain ⟨c, opened⟩ := k
  cases hopening : g.opening? (g.candidates opened) c with
  | some found =>
    obtain ⟨r, d⟩ := found
    rw [read?_of_opening hopening] at hread
    obtain ⟨-, rfl⟩ := Prod.mk.inj (Option.some.inj hread)
    dsimp only
    split
    · next hclosing => exact ⟨(mem_of_opening? hopening).1, hclosing, h⟩
    · exact h
  | none =>
    cases opened with
    | nil =>
      rw [read?_of_root hopening] at hread
      obtain ⟨found, -, hsame⟩ := Option.map_eq_some_iff.1 hread
      obtain ⟨-, rfl⟩ := Prod.mk.inj hsame
      exact trivial
    | cons r opened =>
      obtain ⟨written, hwritten⟩ := Option.isSome_iff_exists.1 h.2.1
      rw [read?_of_span opened hopening hwritten] at hread
      rcases Option.or_eq_some_iff.1 hread with hread | ⟨-, hread⟩
      · obtain ⟨d, -, hsame⟩ := Option.map_eq_some_iff.1 hread
        obtain ⟨-, rfl⟩ := Prod.mk.inj hsame
        exact h.2.2
      · obtain ⟨next, -, hsame⟩ := Option.map_eq_some_iff.1 hread
        obtain ⟨-, rfl⟩ := Prod.mk.inj hsame
        exact h

theorem ReadsTo.opened (h : g.ReadsTo k tokens k') (hk : g.Opened k.opened) :
    g.Opened k'.opened := by
  induction h with
  | refl => exact hk
  | next hread _ ih => exact ih (hk.read? hread)

end ReadsTo

/-! ## The span of a rule -/

/-- A reader with so many rules open, or more, reads until fewer are, or the text is over. -/
inductive SpanFrom (g : Grammar) (height : Nat) : TreeReader → List Token → TreeReader → Prop
  | closed {k : TreeReader} (h : k.opened.length < height) : g.SpanFrom height k [] k
  | ended {k : TreeReader} (hopen : height ≤ k.opened.length) (h : g.read? k = none) :
      g.SpanFrom height k [] k
  | next {k k' k'' : TreeReader} {first rest : List Token} (hopen : height ≤ k.opened.length)
      (h : g.read? k = some (first, k')) (hrest : g.SpanFrom height k' rest k'') :
      g.SpanFrom height k (first ++ rest) k''

section SpanFrom

variable {height : Nat} {k k' k'' : TreeReader} {tokens tokens' : List Token}

theorem SpanFrom.readsTo (h : g.SpanFrom height k tokens k') : g.ReadsTo k tokens k' := by
  induction h with
  | closed => exact .refl _
  | ended => exact .refl _
  | next _ hread _ ih => exact .next hread ih

/-- **A span is determined** by where it begins. -/
theorem SpanFrom.unique (h : g.SpanFrom height k tokens k') (h' : g.SpanFrom height k tokens' k'') :
    tokens = tokens' ∧ k' = k'' := by
  induction h generalizing tokens' with
  | closed hlow =>
    cases h' with
    | closed => exact ⟨rfl, rfl⟩
    | ended => exact ⟨rfl, rfl⟩
    | next hopen => omega
  | ended hopen hend =>
    cases h' with
    | closed => exact ⟨rfl, rfl⟩
    | ended => exact ⟨rfl, rfl⟩
    | next _ hread => rw [hend] at hread; cases hread
  | next hopen hread _ ih =>
    cases h' with
    | closed hlow => omega
    | ended _ hend => rw [hend] at hread; cases hread
    | next _ hread' hrest' =>
      obtain ⟨rfl, rfl⟩ := Prod.mk.inj (Option.some.inj (hread.symm.trans hread'))
      obtain ⟨rfl, rfl⟩ := ih hrest'
      exact ⟨rfl, rfl⟩

end SpanFrom

/-- Where a rule without inner rules leaves a reader: behind its closing with the rule closed, or at
the end of the text with the rule open. -/
def leave (g : Grammar) (r : SpanRule) (written : String) (opened : List SpanRule)
    (c : Cursor) : TreeReader :=
  let d := c.seek fun e => (g.matchEnd? written e).isSome
  match g.matchEnd? written d with
  | some e => ⟨e, opened⟩
  | none => ⟨d, r :: opened⟩

/-- A piece of text in tokens of one kind. -/
structure Uniform (kind : Kind) (tokens : List Token) (text : List Char) : Prop where
  kind_eq : ∀ t ∈ tokens, t.kind = kind
  textOf_eq : Token.textOf tokens = text

theorem Uniform.append {kind : Kind} {tokens tokens' : List Token} {text text' : List Char}
    (h : Uniform kind tokens text) (h' : Uniform kind tokens' text') :
    Uniform kind (tokens ++ tokens') (text ++ text') := by
  refine ⟨fun t ht => ?_, ?_⟩
  · exact (List.mem_append.1 ht).elim (h.kind_eq t) (h'.kind_eq t)
  · rw [Token.textOf_append, h.textOf_eq, h'.textOf_eq]

/-- What a reader makes of the closing of a rule: no token of an empty match. -/
theorem uniform_of_upTo (kind : Kind) (text : List Char) :
    Uniform kind (if text.isEmpty then [] else [.ofChars kind text]) text := by
  cases text with
  | nil => exact ⟨by simp, rfl⟩
  | cons a rest => exact ⟨by simp [Token.ofChars], by simp [Token.textOf, Token.ofChars]⟩

theorem matchEnd?_leadsTo {written : String} {c d : Cursor} (h : g.matchEnd? written c = some d) :
    c.LeadsTo d := by
  unfold matchEnd? at h
  split at h
  · next p hp =>
    obtain ⟨m, hm, rfl⟩ := Option.map_eq_some_iff.1 h
    exact Pattern.leadsTo_of_matchAt? hm
  · cases h

section Leaf

variable {r : SpanRule} {written : String} {c d : Cursor}

theorem leave_of_match (opened : List SpanRule) (h : g.matchEnd? written c = some d) :
    g.leave r written opened c = ⟨d, opened⟩ := by
  have hseek := Cursor.seek_of_holds (p := fun e => (g.matchEnd? written e).isSome) (c := c)
    (by rw [h]; rfl)
  rw [leave, hseek, h]

theorem leave_of_next {a : Char} (opened : List SpanRule) (h : g.matchEnd? written c = none)
    (hnext : c.next? = some (a, d)) :
    g.leave r written opened c = g.leave r written opened d := by
  have hseek := Cursor.seek_of_next? (p := fun e => (g.matchEnd? written e).isSome)
    (by rw [h]; rfl) hnext
  rw [leave, leave, hseek]

theorem leave_of_end (opened : List SpanRule) (h : g.matchEnd? written c = none)
    (hnext : c.next? = none) : g.leave r written opened c = ⟨c, r :: opened⟩ := by
  rw [leave, Cursor.seek_of_end hnext, h]

/-- **Induction along the text up to the end of a span:** a closing matches, or the text is over, or
one character is read on. -/
theorem leave_induction {P : Cursor → Prop} (written : String)
    (closed : ∀ c d, g.matchEnd? written c = some d → P c)
    (ended : ∀ c, g.matchEnd? written c = none → c.next? = none → P c)
    (next : ∀ c a d, g.matchEnd? written c = none → c.next? = some (a, d) → P d → P c)
    (c : Cursor) : P c := by
  refine Cursor.seek_induction (fun e => (g.matchEnd? written e).isSome)
    (fun c hp => ?_) (fun c hp hnext => ?_) (fun c a d hp hnext ih => ?_) c
  · obtain ⟨d, hd⟩ := Option.isSome_iff_exists.1 hp
    exact closed c d hd
  · exact ended c (Option.isNone_iff_eq_none.1 (by simpa using hp)) hnext
  · exact next c a d (Option.isNone_iff_eq_none.1 (by simpa using hp)) hnext ih

theorem leadsTo_leave (r : SpanRule) (written : String) (opened : List SpanRule) (c : Cursor) :
    c.LeadsTo (g.leave r written opened c).cursor := by
  induction c using leave_induction (g := g) written with
  | closed c d hd =>
    rw [leave_of_match opened hd]
    exact matchEnd?_leadsTo hd
  | ended c hnone hnext => rw [leave_of_end opened hnone hnext]
  | next c a d hnone hnext ih =>
    rw [leave_of_next opened hnone hnext]
    exact (Cursor.LeadsTo.of_next? hnext).trans ih

/-- A span that ends in front of a class of characters is closed at the first of them, or at the end
of the text. -/
theorem leave_of_ahead {p : Char → Bool}
    (hmatch : ∀ c, g.matchEnd? written c = if c.after.head?.all p then some c else none)
    (opened : List SpanRule) (c : Cursor) :
    g.leave r written opened c = ⟨c.skip fun a => !p a, opened⟩ := by
  induction c using leave_induction (g := g) written with
  | closed c d hd =>
    obtain ⟨hall, hsame⟩ := Option.ite_none_right_eq_some.1 ((hmatch c).symm.trans hd)
    obtain rfl := Option.some.inj hsame
    have hstep : c.step? (fun a => !p a) = none := by
      refine Cursor.step?_eq_none_iff.2 fun a d hnext => ?_
      rw [Cursor.after_eq_of_next? hnext] at hall
      simpa using hall
    rw [leave_of_match opened hd, Cursor.skip_of_step?_none hstep]
  | ended c hnone hnext =>
    rw [hmatch, Cursor.after_eq_nil_of_next? hnext] at hnone
    cases hnone
  | next c a d hnone hnext ih =>
    have ha : p a = false := Bool.eq_false_iff.2 fun ha => by
      rw [hmatch, Cursor.after_eq_of_next? hnext, List.head?_cons, Option.all_some,
        if_pos ha] at hnone
      cases hnone
    rw [leave_of_next opened hnone hnext, ih, Cursor.skip_of_next? hnext (by rw [ha]; rfl)]

/-- **The span of a rule,** where no inner rule can be opened, ends at the first place where its
closing matches, or at the end of the text, and all its tokens are of the kind of the rule: by
induction along the text. -/
theorem exists_spanFrom_of_opening? (hclosing : r.closing = some written) (opened : List SpanRule)
    (c : Cursor) (hinner : ∀ d, c.LeadsTo d → g.opening? r.inner d = none) :
    ∃ tokens, g.SpanFrom (opened.length + 1) ⟨c, r :: opened⟩ tokens
        (g.leave r written opened c) ∧
      Uniform r.kind tokens (c.upTo (g.leave r written opened c).cursor) := by
  have hopen : ∀ c, opened.length + 1 ≤ (⟨c, r :: opened⟩ : TreeReader).opened.length :=
    fun c => Nat.le_refl _
  induction c using leave_induction (g := g) written with
  | closed c d hd =>
    have hread := read?_of_span opened (hinner c (.refl c)) hclosing
    rw [hd, Option.map_some, Option.some_or] at hread
    rw [leave_of_match opened hd]
    refine ⟨_, .next (hopen c) hread (.closed (Nat.lt_succ_self _)), ?_⟩
    rw [List.append_nil]
    exact uniform_of_upTo r.kind (c.upTo d)
  | ended c hd hnext =>
    have hread := read?_of_span opened (hinner c (.refl c)) hclosing
    rw [hd, hnext, Option.map_none, Option.map_none, Option.none_or] at hread
    rw [leave_of_end opened hd hnext]
    exact ⟨[], .ended (hopen c) hread, by simp, by simp [Token.textOf, Cursor.upTo]⟩
  | next c a d hd hnext ih =>
    have hlead := Cursor.LeadsTo.of_next? hnext
    have hread := read?_of_span opened (hinner c (.refl c)) hclosing
    rw [hd, hnext, Option.map_none, Option.none_or, Option.map_some] at hread
    obtain ⟨tokens, hspan, huniform⟩ := ih fun e he => hinner e (hlead.trans he)
    rw [leave_of_next opened hd hnext]
    refine ⟨_, .next (hopen c) hread hspan, ?_⟩
    have hfirst : Uniform r.kind [.ofChars r.kind (c.upTo d)] (c.upTo d) :=
      ⟨by simp [Token.ofChars], by simp [Token.textOf, Token.ofChars]⟩
    have hall := hfirst.append huniform
    rwa [hlead.upTo_append (leadsTo_leave r written opened d)] at hall

/-- **The span of a rule without inner rules** can be said at any place. -/
theorem exists_spanFrom (hinner : r.inner = []) (hclosing : r.closing = some written)
    (opened : List SpanRule) (c : Cursor) :
    ∃ tokens, g.SpanFrom (opened.length + 1) ⟨c, r :: opened⟩ tokens
        (g.leave r written opened c) ∧
      Uniform r.kind tokens (c.upTo (g.leave r written opened c).cursor) :=
  exists_spanFrom_of_opening? hclosing opened c fun d _ => by
    rw [hinner]
    rfl

end Leaf

/-! ## Spans inside of spans -/

/-- A span that is opened inside another one when a text is read. -/
structure NestedSpan (g : Grammar) (text : List Char) where
  /-- The tokens in front of it. -/
  before : List Token
  /-- The rule around it. -/
  outer : SpanRule
  /-- The rules around that one, innermost first. -/
  around : List SpanRule
  rule : SpanRule
  /-- Where its opening begins. -/
  start : Cursor
  /-- Where its opening ends. -/
  opened : Cursor
  reached : g.ReadsTo ⟨Cursor.start text, []⟩ before ⟨start, outer :: around⟩
  opens : g.opening? outer.inner start = some (rule, opened)
  isSpan : rule.closing.isSome

namespace NestedSpan

variable {text : List Char} (s : g.NestedSpan text)

/-- The span has some tokens behind its opening, and ends at a place. -/
def EndsAt (inside : List Token) (e : Cursor) : Prop :=
  ∃ k, g.SpanFrom (s.around.length + 2) ⟨s.opened, s.rule :: s.outer :: s.around⟩ inside k ∧
    k.cursor = e

/-- The token of the opening. -/
def openingToken : Token :=
  .ofChars s.rule.kind (s.start.upTo s.opened)

variable {s}

theorem EndsAt.unique {inside inside' : List Token} {e e' : Cursor} (h : s.EndsAt inside e)
    (h' : s.EndsAt inside' e') : inside = inside' ∧ e = e' := by
  obtain ⟨k, hspan, rfl⟩ := h
  obtain ⟨k', hspan', rfl⟩ := h'
  obtain ⟨rfl, rfl⟩ := hspan.unique hspan'
  exact ⟨rfl, rfl⟩

theorem mem_inner (s : g.NestedSpan text) : s.rule ∈ s.outer.inner :=
  (mem_of_opening? s.opens).1

/-- The rules that are open around a span are a chain of rules of the grammar. -/
theorem opened_around (s : g.NestedSpan text) : g.Opened (s.outer :: s.around) :=
  s.reached.opened trivial

/-- **The tokens of a span stand among those of its text:** behind what is read before it. -/
theorem EndsAt.exists_rest {inside tokens : List Token} {e : Cursor} (h : s.EndsAt inside e)
    (hall : g.Reads text tokens) :
    ∃ rest, tokens = s.before ++ s.openingToken :: (inside ++ rest) := by
  obtain ⟨k, hspan, -⟩ := h
  have hopen : g.read? ⟨s.start, s.outer :: s.around⟩ = _ := read?_of_opening s.opens
  rw [if_pos s.isSpan] at hopen
  obtain ⟨rest, rfl, -⟩ := (s.reached.trans (.next hopen hspan.readsTo)).exists_rest hall
  exact ⟨rest, by simp [openingToken]⟩

end NestedSpan

end Grammar

/-- **The lexer of a grammar reads every text to its end,** by the tree of the rules, if no opening
and no keyword matches the empty text. -/
theorem Grammar.exists_reads {g : Grammar} (hlexer : g.lexer = none) (htags : g.TagsKnown)
    (hread : g.PatternsRead) (hopen : g.OpeningsTake) :
    ∃ l, g.compile = .ok l ∧ ∀ text, ∃ tokens, l.tokens text = .ok tokens ∧
      g.Reads text tokens ∧ Token.Cover tokens text := by
  obtain ⟨table, ready, ht, hr, hof⟩ := exists_ready htags hread
  obtain ⟨l, hl, hbody, hretag⟩ := exists_ruleLexer hlexer ht
  refine ⟨l, hl, fun text => ?_⟩
  obtain ⟨n, tokens, k, -, -, -, hscan, hcover⟩ := Scanner.exists_cover hof hopen text
  refine ⟨tokens, ?_, (scan_eq_ok_iff ht hr).1 hscan, hcover⟩
  rw [Lexer.tokens_of_ready hbody hretag hr, hscan]
  rfl

end DocHighlighter
