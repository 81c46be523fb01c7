/-
# Tokens are made of the text

A scan makes nothing up: every character of a token stands in the text that is scanned
(`Lexer.mem_of_tokens`), whatever the table of the lexer is.  Nothing is said about what is
left out: a rule may give tokens for some groups of its match only.

Matching moves about in one text.  Looks to either side too lead to places of that text, so
the groups of a match have their characters from there (`Expr.inside_of_passes`).  A group
that is scanned on its own gives characters of the group; the run is an induction on its
steps, and the nested scans one on their depth.
-/

import DocHighlighter.Proofs.Pattern.Advance
import DocHighlighter.Proofs.Scanner.Places
import DocHighlighter.Proofs.Scanner.Steps

namespace DocHighlighter

/-! ## Places of one text -/

namespace Text
namespace Cursor

theorem text_eq_of_prev? {c d : Cursor} (h : c.prev? = some d) : d.text = c.text := by
  obtain ⟨before, after, pos, remaining, hp, hr⟩ := c
  cases before with
  | nil => cases h
  | cons a before =>
    obtain rfl := Option.some.inj h
    simp [text]

theorem text_eq_of_back? {n : Nat} {c d : Cursor} (h : c.back? n = some d) : d.text = c.text := by
  induction n generalizing c with
  | zero => rw [Option.some.inj h]
  | succ n ih =>
    obtain ⟨e, he, hd⟩ := Option.bind_eq_some_iff.1 h
    exact (ih hd).trans (text_eq_of_prev? he)

/-- What lies between two places stands in the text. -/
theorem mem_text_of_mem_upTo {c d : Cursor} {a : Char} (h : a ∈ c.upTo d) : a ∈ c.text :=
  List.mem_append_right _ (List.mem_of_mem_take h)

end Cursor
end Text

namespace Pattern

open Text (Cursor)

/-- All groups begin at places of a text. -/
def Captures.Inside (text : List Char) (g : Captures) : Prop :=
  ∀ s ∈ g, s.2.start.text = text

theorem Captures.Inside.of_get? {text : List Char} {g : Captures} (h : g.Inside text) {n : Nat}
    {s : Span} (hs : g.get? n = some s) {a : Char} (ha : a ∈ s.text) : a ∈ text := by
  obtain ⟨pair, hpair, rfl⟩ := Option.map_eq_some_iff.1 hs
  exact h pair (List.mem_of_find?_eq_some hpair) ▸ Cursor.mem_text_of_mem_upTo ha

variable {R : Passage} {c d : Cursor} {g h : Captures} {text : List Char}

theorem Turns.inside (hR : ∀ {c g d h}, R c g d h → c.text = text → g.Inside text →
    d.text = text ∧ h.Inside text) {n : Nat} (hpass : Turns R n c g d h) (hc : c.text = text)
    (hg : g.Inside text) : h.Inside text := by
  induction hpass with
  | none => exact hg
  | more first _ ih =>
    obtain ⟨hd, hh⟩ := hR first hc hg
    exact ih hd hh

/-- **The groups of a match lie in the text:** a passage stays in the text, and so do its groups. -/
theorem Expr.inside_of_passes {e : Expr} {f : Flags} (hpass : e.Passes f c g d h)
    (hc : c.text = text) (hg : g.Inside text) : h.Inside text := by
  have hstays : ∀ {e : Expr} {f c g d h}, e.Passes f c g d h → c.text = text → d.text = text :=
    fun hpass hc => (leadsTo_of_passes hpass).1.text_eq.trans hc
  induction e generalizing f c g d h with
  | empty => exact hpass.2 ▸ hg
  | char a | any | oneOf negated items =>
    obtain ⟨-, -, -, rfl⟩ := hpass
    exact hg
  | anchor a => exact hpass.2.2 ▸ hg
  | seq a b iha ihb =>
    obtain ⟨e, i, hfirst, hthen⟩ := hpass
    exact ihb hthen (hstays hfirst hc) (iha hfirst hc hg)
  | alt a b iha ihb =>
    rcases hpass with hpass | hpass
    · exact iha hpass hc hg
    · exact ihb hpass hc hg
  | group n a ih =>
    obtain ⟨i, hpass, rfl⟩ := hpass
    intro s hs
    rcases List.mem_cons.1 hs with rfl | hs
    · exact hc
    · exact ih hpass hc hg s hs
  | «scoped» on off a ih => exact ih (f := (f.union on).diff off) hpass hc hg
  | turns least most eagerness a ih =>
    obtain ⟨n, -, hpass⟩ := hpass
    exact hpass.inside (fun hturn hc hg => ⟨hstays hturn hc, ih hturn hc hg⟩) hc hg
  | ahead negated a ih =>
    obtain ⟨-, hpass⟩ := hpass
    split at hpass
    · exact hpass ▸ hg
    · obtain ⟨e, hpass⟩ := hpass
      exact ih hpass hc hg
  | behind width negated a ih =>
    obtain ⟨-, hpass⟩ := hpass
    split at hpass
    · exact hpass ▸ hg
    · obtain ⟨b, e, hback, hpass⟩ := hpass
      exact ih hpass ((Cursor.text_eq_of_back? hback).trans hc) hg
  | atomic a ih => exact ih (f := f) hpass hc hg
  | backref n => exact hpass.1 ▸ hg
  | ifGroup n yes no ihy ihn =>
    unfold Expr.Passes at hpass
    split at hpass
    · exact ihy hpass hc hg
    · exact ihn hpass hc hg

end Pattern

/-! ## Tokens -/

/-- Every character of the tokens stands in a text. -/
def Token.AreFrom (text : List Char) (tokens : List Token) : Prop :=
  ∀ t ∈ tokens, ∀ c ∈ t.text.toList, c ∈ text

namespace Token.AreFrom

variable {text : List Char} {tokens more : List Token}

theorem nil : Token.AreFrom text [] :=
  fun _ ht => absurd ht List.not_mem_nil

theorem append (h : Token.AreFrom text tokens) (hmore : Token.AreFrom text more) :
    Token.AreFrom text (tokens ++ more) :=
  fun t ht => (List.mem_append.1 ht).elim (h t) (hmore t)

theorem singleton {t : Token} (h : ∀ c ∈ t.text.toList, c ∈ text) : Token.AreFrom text [t] := by
  intro t' ht'
  obtain rfl := List.mem_singleton.1 ht'
  exact h

theorem ofChars {kind : Kind} {chars : List Char} (h : ∀ c ∈ chars, c ∈ text) :
    Token.AreFrom text [.ofChars kind chars] := by
  refine singleton fun c hc => h c ?_
  rwa [Token.ofChars, String.toList_ofList] at hc

end Token.AreFrom

namespace Scanner

open Text (Cursor)

variable {t : ReadyTable} {nested : Nested}

/-- A nested scan gives characters of the text that it scans. -/
def IsFaithful (nested : Nested) : Prop :=
  ∀ text stack tokens, nested text stack = .ok tokens → Token.AreFrom text tokens

theorem Part.areFrom (hnested : IsFaithful nested) {m : Pattern.Match} {text : List Char}
    (hm : m.captures.Inside text) {group : Nat} {p : Part} {tokens : List Token}
    (h : p.tokens nested m group = .ok tokens) : Token.AreFrom text tokens := by
  unfold Part.tokens at h
  cases p with
  | token kind =>
    dsimp only at h
    split at h
    · next s hs =>
      split at h
      · exact Except.ok.inj h ▸ .nil
      · exact Except.ok.inj h ▸ .ofChars fun c hc => hm.of_get? hs hc
    · exact Except.ok.inj h ▸ .nil
  | nested state =>
    dsimp only at h
    split at h
    · next s hs => exact fun t ht c hc => hm.of_get? hs (hnested _ _ _ h t ht c hc)
    · exact Except.ok.inj h ▸ .nil
  | refused =>
    dsimp only at h
    split at h
    · cases h
    · exact Except.ok.inj h ▸ .nil

theorem groupTokens_areFrom (hnested : IsFaithful nested) {m : Pattern.Match} {text : List Char}
    (hm : m.captures.Inside text) {parts : List Part} {group : Nat} {tokens : List Token}
    (h : groupTokens nested m group parts = .ok tokens) : Token.AreFrom text tokens := by
  induction parts generalizing group tokens with
  | nil => exact Except.ok.inj h ▸ .nil
  | cons p parts ih =>
    rw [groupTokens] at h
    obtain ⟨here, hhere, h⟩ := exists_ok_of_bind h
    obtain ⟨rest, hrest, h⟩ := exists_ok_of_bind h
    exact Except.ok.inj h ▸ (Part.areFrom hnested hm hhere).append (ih hrest)

theorem Action.areFrom (hnested : IsFaithful nested) {c : Cursor} {m : Pattern.Match}
    (hm : m.captures.Inside c.text) {a : Action} {tokens : List Token}
    (h : a.tokens nested c m = .ok tokens) : Token.AreFrom c.text tokens := by
  have hmatch : ∀ ch ∈ c.upTo m.stop, ch ∈ c.text := fun _ => Cursor.mem_text_of_mem_upTo
  cases a with
  | token kind => exact Except.ok.inj h ▸ .ofChars hmatch
  | nonempty kind =>
    simp only [Action.tokens] at h
    split at h
    · exact Except.ok.inj h ▸ .nil
    · exact Except.ok.inj h ▸ .ofChars hmatch
  | groups parts => exact groupTokens_areFrom hnested hm h
  | silent => exact Except.ok.inj h ▸ .nil

/-- A step gives characters of the text. -/
theorem step_areFrom (hnested : IsFaithful nested) {k k' : Config} {tokens : List Token}
    (h : step t nested k = .ok (some (tokens, k'))) : Token.AreFrom k.cursor.text tokens := by
  have hnext : ∀ {c d}, k.cursor.next? = some (c, d) → c ∈ k.cursor.text := by
    intro c d hnext
    rw [Cursor.text, Cursor.after_eq_of_next? hnext]
    simp
  cases made_of_step h with
  | matched hfirst htokens =>
    have hpass := Pattern.passes_of_matchAt? (matchAt?_of_firstMatch? hfirst).2
    exact Action.areFrom hnested (Pattern.Expr.inside_of_passes hpass rfl
      fun _ hs => absurd hs List.not_mem_nil) htokens
  | newline _ hd =>
    refine .singleton fun a ha => ?_
    obtain rfl : a = '\n' := by simpa using ha
    exact hnext hd
  | @other c d _ hd =>
    refine .singleton fun a ha => ?_
    obtain rfl : a = c := by simpa [Char.toString] using ha
    exact hnext hd

/-- So does a run, by induction on its steps. -/
theorem run_areFrom (hnested : IsFaithful nested) {fuel : Nat} {k : Config}
    {before tokens : List Token} (hbefore : Token.AreFrom k.cursor.text before)
    (h : run t nested fuel k before = .ok tokens) : Token.AreFrom k.cursor.text tokens := by
  induction fuel generalizing k before with
  | zero => cases h
  | succ fuel ih =>
    obtain ⟨-, rfl⟩ | ⟨more, k', hstep, hrest⟩ := run_eq_ok_cases h
    · exact fun t' ht => hbefore t' (List.mem_reverse.1 ht)
    · have hsame : k'.cursor.text = k.cursor.text := (leadsTo_of_step hstep).text_eq
      have hmore := step_areFrom hnested hstep
      rw [← hsame] at hmore hbefore ⊢
      exact ih (.append (fun t' ht => hmore t' (List.mem_reverse.1 ht)) hbefore) hrest

/-- And nested scans, by induction on their depth. -/
theorem isFaithful_scanFrom (t : ReadyTable) (depth : Nat) : IsFaithful (scanFrom t depth) := by
  induction depth with
  | zero => exact fun text stack tokens h => by cases h
  | succ depth ih =>
    intro text stack tokens h
    have hstart : (Cursor.start text).text = text := rfl
    exact hstart ▸ run_areFrom ih .nil h

end Scanner

/-- **Tokens are made of the text:** a lexer gives no character that does not stand in the text. -/
theorem Lexer.mem_of_tokens {l : Lexer} {text : List Char} {tokens : List Token}
    (h : l.tokens text = .ok tokens) : ∀ c ∈ Token.textOf tokens, c ∈ text := by
  obtain ⟨plain, hplain, rfl⟩ : ∃ plain : List Token, Token.AreFrom text plain ∧
      plain.map (fun t => { t with kind := l.retag t }) = tokens := by
    unfold Lexer.tokens at h
    split at h
    · refine ⟨Json.scan text, fun t ht c hc => ?_, Except.ok.inj h⟩
      rw [← Json.textOf_scan text]
      exact List.mem_flatMap.2 ⟨t, ht, hc⟩
    · next flags table _ =>
      cases hready : table.ready flags with
      | error fault => simp [hready, bind, Except.bind] at h
      | ok ready =>
        cases hscan : Scanner.scan ready text with
        | error fault => simp [hready, hscan, bind, Except.bind] at h
        | ok plain =>
          simp only [hready, hscan, bind, Except.bind, pure, Except.pure, Except.ok.injEq] at h
          exact ⟨plain, Scanner.isFaithful_scanFrom ready _ _ _ _ hscan, h⟩
  intro c hc
  obtain ⟨t, ht, hmem⟩ := List.mem_flatMap.1 hc
  obtain ⟨t', ht', rfl⟩ := List.mem_map.1 ht
  exact hplain t' ht' c hmem

end DocHighlighter
