/-
# Spans inside of documentation and attributes

Documentation may have types and attributes in it, and attributes may have numbers and references in
parentheses.  Such an inner span ends behind the first sign that closes it, or at the end of the
text; while it is open, what closes the span around it is not looked for.

So it stays within the span around it exactly if the sign that closes it comes before the end of
that one (`nestedSpan_endsWithin_iff`).  The signs may come in the other order: in `@a {b`, with the
brace closed on the next line, the type goes on over the end of the documentation
(`not_forall_nestedSpan_endsWithin`).
-/

import DocHighlighter.Proofs.Grammar.Extents
import DocHighlighter.Proofs.Language.Idl.Patterns
import Mathlib.Data.List.TakeWhile

namespace DocHighlighter

open Text (Cursor isBlank isWord isDigit)

namespace Text

/-- How many characters stand in front of the first place where a text lies, or how many there
are. -/
def lengthBefore (w : List Char) : List Char → Nat
  | [] => 0
  | a :: rest => if w <+: a :: rest then 0 else lengthBefore w rest + 1

theorem lengthBefore_le (w : List Char) (text : List Char) : lengthBefore w text ≤ text.length := by
  induction text with
  | nil => exact Nat.le_refl 0
  | cons a rest ih =>
    rw [lengthBefore, List.length_cons]
    split <;> omega

/-- A text that begins with a sign does not lie where the sign is not. -/
theorem lengthBefore_append {x : Char} (w : List Char) {before : List Char} (h : x ∉ before)
    (text : List Char) :
    lengthBefore (x :: w) (before ++ text) = before.length + lengthBefore (x :: w) text := by
  induction before with
  | nil => exact (Nat.zero_add _).symm
  | cons a before ih =>
    obtain ⟨ha, hbefore⟩ := not_or.1 fun hmem => h (List.mem_cons.2 hmem)
    have hnot : ¬ x :: w <+: a :: (before ++ text) := fun hlies =>
      ha (List.cons_prefix_cons.1 hlies).1
    rw [List.cons_append, lengthBefore, if_neg hnot, ih hbefore, List.length_cons]
    omega

theorem length_through (x : Char) (text : List Char) :
    (through x text).length = min (lengthBefore [x] text + 1) text.length := by
  induction text with
  | nil => rfl
  | cons a rest ih =>
    rw [through, lengthBefore]
    by_cases ha : a = x
    · simp [ha]
    · have hnot : ¬ [x] <+: a :: rest := fun hlies => ha (List.cons_prefix_cons.1 hlies).1.symm
      rw [if_neg ha, if_neg hnot, List.length_cons, ih, List.length_cons]
      omega

end Text

namespace Grammar

variable {g : Grammar} {r : SpanRule} {written : String} {x : Char}

/-- A span that a sign closes ends behind the first such sign, or at the end of the text. -/
theorem pos_leave_of_sign (hmatch : ∀ c, g.matchEnd? written c = c.over? [x])
    (opened : List SpanRule) (c : Cursor) :
    (g.leave r written opened c).cursor.pos =
      c.pos + min (Text.lengthBefore [x] c.after + 1) c.after.length := by
  have hcovered := (leave_of_sign (r := r) hmatch opened c).1
  rw [(leadsTo_leave r written opened c).pos_eq, hcovered, Text.length_through]

end Grammar

namespace Language
namespace Idl

/-- The signs at which the spans of a rule end: a closing sign, the fence, or the newline. -/
def endSigns (r : SpanRule) : List Char :=
  match r.closing with
  | some r"\}" => ['}']
  | some r"\]" => [']']
  | some r"\)" => [')']
  | some r"```" => ['`', '`', '`']
  | _ => ['\n']

/-- What an inner rule is like: a sign closes it, and its opening goes over no sign at which the
rule around it ends. -/
structure IsInner (outer r : SpanRule) : Prop where
  inner_eq : r.inner = []
  closes : ∃ written x, r.closing = some written ∧ endSigns r = [x] ∧
    ∀ c, grammar.matchEnd? written c = c.over? [x]
  opens : ∃ x w, endSigns outer = x :: w ∧
    ∀ c d, grammar.matchEnd? r.opening c = some d → x ∉ c.upTo d

/-- An opening of some signs goes over those signs. -/
theorem upTo_of_over? {w : List Char} {c d : Cursor} (h : c.over? w = some d) : c.upTo d = w := by
  rw [Cursor.over?] at h
  split at h
  · next hlies =>
    obtain rfl := Option.some.inj h
    rw [Cursor.upTo_past]
    exact (List.prefix_iff_eq_take.1 hlies).symm
  · cases h

/-- A sign, some blanks, and some characters of a class behind them. -/
inductive SignThenRun (sign : Char) (p : Char → Bool) : List Char → Prop
  | mk {blanks run : List Char} (hblanks : ∀ a ∈ blanks, isBlank a = true) (hne : run ≠ [])
      (hrun : ∀ a ∈ run, p a = true) : SignThenRun sign p (sign :: (blanks ++ run))

section Openings

variable {c d : Cursor} {x : Char} {p : Char → Bool}

/-- What is opened by a sign and a run goes over both, and the blanks between them. -/
theorem signThenRun_of_opening (h : signThenRun? x p c = some d) :
    SignThenRun x p (c.upTo d) := by
  obtain ⟨e, hstep, hrun⟩ := Option.bind_eq_some_iff.1 h
  obtain ⟨b, hnext, hb⟩ := Cursor.step?_eq_some_iff.1 hstep
  obtain rfl := eq_of_beq hb
  rw [Cursor.runEnd?_eq] at hrun
  obtain ⟨e', hstep', rfl⟩ := Option.map_eq_some_iff.1 hrun
  obtain ⟨a, hnext', ha⟩ := Cursor.step?_eq_some_iff.1 hstep'
  rw [← Cursor.skip_of_step? hstep']
  have hlead := (Cursor.leadsTo_skip isBlank e).trans (Cursor.leadsTo_skip p (e.skip isBlank))
  rw [← (Cursor.LeadsTo.of_next? hnext).upTo_append hlead,
    ← (Cursor.leadsTo_skip isBlank e).upTo_append (Cursor.leadsTo_skip p _),
    Cursor.upTo_of_next? hnext, Cursor.upTo_skip, Cursor.upTo_skip, List.singleton_append]
  refine .mk (fun a => List.mem_takeWhile_imp) ?_ (fun a => List.mem_takeWhile_imp)
  rw [Cursor.after_eq_of_next? hnext', List.takeWhile_cons_of_pos ha]
  exact List.cons_ne_nil _ _

/-- What such an opening goes over. -/
theorem SignThenRun.mem {sign : Char} {text : List Char} (h : SignThenRun sign p text)
    (hx : x ∈ text) : x = sign ∨ isBlank x = true ∨ p x = true := by
  obtain ⟨hblanks, -, hrun⟩ := h
  rcases List.mem_cons.1 hx with hx | hx
  · exact .inl hx
  · exact .inr ((List.mem_append.1 hx).imp (hblanks x) (hrun x))

end Openings

/-- Types and attributes inside of documentation. -/
theorem isInner_of_mem_docSpans {outer r : SpanRule} (hr : r ∈ docSpans) {x : Char} {w : List Char}
    (houter : endSigns outer = x :: w) (hbrace : x ≠ '{') (hbracket : x ≠ '[') :
    IsInner outer r := by
  rcases List.mem_cons.1 hr with rfl | hr
  · refine ⟨rfl, ⟨_, _, rfl, rfl, matchEnd?_closeBrace⟩, ⟨x, w, houter, fun c d h => ?_⟩⟩
    rw [upTo_of_over? ((matchEnd?_openBrace c).symm.trans h)]
    simpa using hbrace
  · obtain rfl := List.mem_singleton.1 hr
    refine ⟨rfl, ⟨_, _, rfl, rfl, matchEnd?_closeBracket⟩, ⟨x, w, houter, fun c d h => ?_⟩⟩
    rw [upTo_of_over? ((matchEnd?_openBracket c).symm.trans h)]
    simpa using hbracket

/-- Numbers and references inside of attributes. -/
theorem isInner_of_mem_attributes {r : SpanRule} (hr : r ∈ attributes.inner) :
    IsInner attributes r := by
  rcases List.mem_cons.1 hr with rfl | hr
  · refine ⟨rfl, ⟨_, _, rfl, rfl, matchEnd?_closeParenthesis⟩, ⟨']', [], rfl, fun c d h hx => ?_⟩⟩
    have hopen := signThenRun_of_opening ((matchEnd?_numberArgument c).symm.trans h)
    exact absurd (hopen.mem hx) (by decide)
  · obtain rfl := List.mem_singleton.1 hr
    refine ⟨rfl, ⟨_, _, rfl, rfl, matchEnd?_closeParenthesis⟩, ⟨']', [], rfl, fun c d h hx => ?_⟩⟩
    have hopen := signThenRun_of_opening ((matchEnd?_referenceArgument c).symm.trans h)
    exact absurd (hopen.mem hx) (by decide)

theorem isInner_of_mem {outer r : SpanRule} (houter : outer ∈ grammar.rules) (hr : r ∈ outer.inner) :
    IsInner outer r := by
  simp only [grammar, List.mem_cons, List.not_mem_nil, or_false] at houter
  rcases houter with rfl | rfl | rfl | rfl | rfl | rfl | rfl
  · exact absurd hr List.not_mem_nil
  · exact isInner_of_mem_docSpans hr rfl (by decide) (by decide)
  · exact isInner_of_mem_docSpans hr rfl (by decide) (by decide)
  · exact absurd hr List.not_mem_nil
  · exact isInner_of_mem_attributes hr
  · exact absurd hr List.not_mem_nil
  · exact absurd hr List.not_mem_nil

/-- Nothing can be opened inside of an inner span, so the rule around an inner span is one of the
grammar's own. -/
theorem mem_rules_of_opened {outer r : SpanRule} {around : List SpanRule}
    (h : grammar.Opened (outer :: around)) (hr : r ∈ outer.inner) : outer ∈ grammar.rules := by
  induction around generalizing outer r with
  | nil => exact h.1
  | cons o around ih =>
    have hinner := (isInner_of_mem (ih h.2.2 h.1) h.1).inner_eq
    rw [hinner] at hr
    exact absurd hr List.not_mem_nil

/-- An inner span ends within the one around it: no later than the first sign, from its opening on,
at which that one ends, or than the end of the text if there is none. -/
def EndsWithin {text : List Char} (s : grammar.NestedSpan text) (e : Cursor) : Prop :=
  e.pos ≤ s.start.pos + Text.lengthBefore (endSigns s.outer) s.start.after

/-- **An inner span ends within the one around it exactly if its closing sign comes first,** or the
text has no more sign at which the one around it ends.  The span is found among the tokens that the
lexer makes, all of its kind, and where it ends is determined. -/
theorem nestedSpan_endsWithin_iff (text : List Char) (s : grammar.NestedSpan text) :
    ∃ l, grammar.compile = .ok l ∧
      ∃ inside e rest, s.EndsAt inside e ∧
        Grammar.Uniform s.rule.kind inside (s.opened.upTo e) ∧
        l.tokens text = .ok (s.before ++ s.openingToken :: (inside ++ rest)) ∧
        (EndsWithin s e ↔
          Text.lengthBefore (endSigns s.rule) s.opened.after <
              Text.lengthBefore (endSigns s.outer) s.opened.after ∨
            Text.lengthBefore (endSigns s.outer) s.opened.after = s.opened.after.length) := by
  obtain ⟨l, hl, hreads⟩ := Grammar.exists_reads rfl tagsKnown patternsRead openingsTake
  refine ⟨l, hl, ?_⟩
  have hinner := isInner_of_mem (mem_rules_of_opened s.opened_around s.mem_inner) s.mem_inner
  obtain ⟨written, x, hclosing, hsign, hmatch⟩ := hinner.closes
  obtain ⟨y, w, houter, hopens⟩ := hinner.opens
  obtain ⟨inside, hspan, huniform⟩ := Grammar.exists_spanFrom (g := grammar) hinner.inner_eq hclosing
    (s.outer :: s.around) s.opened
  have hends : s.EndsAt inside _ := ⟨_, hspan, rfl⟩
  obtain ⟨tokens, htokens, hall, -⟩ := hreads text
  obtain ⟨rest, rfl⟩ := hends.exists_rest hall
  refine ⟨inside, _, rest, hends, huniform, htokens, ?_⟩
  -- The opening goes over no sign at which the rule around it ends, so both are looked for behind it.
  have hopening := (Grammar.mem_of_opening? s.opens).2
  have hlead := Grammar.matchEnd?_leadsTo hopening
  have hbefore := Text.lengthBefore_append w (hopens _ _ hopening) s.opened.after
  rw [← hlead.after_eq] at hbefore
  have hlength := congrArg List.length hlead.after_eq
  have hpos := hlead.pos_le
  have hremaining := hlead.remaining_eq
  rw [List.length_append, ← s.start.remaining_eq, ← s.opened.remaining_eq] at hlength
  have hle := Text.lengthBefore_le (y :: w) s.opened.after
  rw [EndsWithin, Grammar.pos_leave_of_sign hmatch, houter, hsign, hbefore]
  rw [← s.opened.remaining_eq] at hle ⊢
  omega

/-- Documentation with a type whose closing brace stands on the next line. -/
def braceOnNextLine : List Char :=
  ['@', '{', 'a', '\n', 'b', '}', '\n']

/-- The type in it. -/
def overTheLine : grammar.NestedSpan braceOnNextLine where
  before := [.ofChars documentation.kind
    ((Cursor.start braceOnNextLine).upTo ((Cursor.start braceOnNextLine).past 1))]
  outer := documentation
  around := []
  rule := typeReference
  start := (Cursor.start braceOnNextLine).past 1
  opened := (Cursor.start braceOnNextLine).past 2
  reached := by
    have hopening : grammar.opening? (grammar.candidates []) (Cursor.start braceOnNextLine) =
        some (documentation, (Cursor.start braceOnNextLine).past 1) :=
      (opening?_rules _).trans (by rfl)
    exact .next (Grammar.read?_of_opening hopening) (.refl _)
  opens := (opening?_docSpans _).trans (by rfl)
  isSpan := rfl

/-- **An inner span need not end within the one around it:** a type that is opened in documentation
and closed on the next line goes on over the end of the documentation. -/
theorem not_forall_nestedSpan_endsWithin :
    ¬ ∀ (text : List Char) (s : grammar.NestedSpan text), ∃ inside e, s.EndsAt inside e ∧
      EndsWithin s e := by
  intro h
  obtain ⟨inside, e, hends, hwithin⟩ := h braceOnNextLine overTheLine
  obtain ⟨inside', hspan, -⟩ := Grammar.exists_spanFrom (g := grammar) (r := typeReference) rfl rfl
    [documentation] overTheLine.opened
  have hends' : overTheLine.EndsAt inside' _ := ⟨_, hspan, rfl⟩
  obtain rfl := (hends.unique hends').2
  rw [EndsWithin, Grammar.pos_leave_of_sign matchEnd?_closeBrace] at hwithin
  revert hwithin
  decide

end Idl
end Language
end DocHighlighter
