/-
# The tokens of a grammar's lexer are the text

Each step takes the text of its tokens, neither more nor less (`StepOf.textOf_eq`),
so a run to the end takes the whole (`Steps.after_eq`).  If no opening and no
keyword matches the empty text (`Grammar.OpeningsTake`), every step takes text or
closes a span (`StepOf.takes_or_closes`): no token is empty, and the run is never
stuck, whatever the closing patterns match.

`Grammar.tokens_lossless` puts this together for the lexer and for an engine, which
joins neighbours of one kind.
-/

import DocHighlighter.Engine.Basic
import DocHighlighter.Proofs.Grammar.Stalling
import DocHighlighter.Proofs.Language.Idl

namespace DocHighlighter

/-- Tokens that are a text, piece by piece: no piece is empty or an error. -/
structure Token.Cover (tokens : List Token) (text : List Char) : Prop where
  textOf_eq : Token.textOf tokens = text
  nonempty : ∀ t ∈ tokens, t.text ≠ ""
  noError : ∀ t ∈ tokens, t.kind ≠ .error

namespace Token

theorem textOf_append (ts us : List Token) : textOf (ts ++ us) = textOf ts ++ textOf us :=
  List.flatMap_append

/-- A property of tokens that joining two of one kind keeps holds of all that are joined. -/
theorem forall_mem_merge {P : Token → Prop}
    (hjoin : ∀ t u : Token, P t → P u → t.kind = u.kind → P ⟨t.kind, t.text ++ u.text⟩)
    {tokens : List Token} (h : ∀ t ∈ tokens, P t) : ∀ t ∈ merge tokens, P t := by
  induction tokens with
  | nil => exact h
  | cons t rest ih =>
    have ht := h t List.mem_cons_self
    have ih := ih fun u hu => h u (List.mem_cons_of_mem _ hu)
    intro v hv
    rw [merge] at hv
    split at hv
    · exact List.mem_singleton.1 hv ▸ ht
    · next u more hm =>
      rw [hm] at ih
      split at hv
      · next hkind =>
        rcases List.mem_cons.1 hv with rfl | hv
        · exact hjoin t u ht (ih u List.mem_cons_self) hkind
        · exact ih v (List.mem_cons_of_mem _ hv)
      · rcases List.mem_cons.1 hv with rfl | hv
        · exact ht
        · exact ih v hv

/-- Joined tokens are of another kind than their neighbours. -/
theorem isChain_merge (tokens : List Token) :
    (merge tokens).IsChain fun t u => t.kind ≠ u.kind := by
  induction tokens with
  | nil => exact .nil
  | cons t rest ih =>
    rw [merge]
    split
    · exact .singleton t
    · next u more hm =>
      rw [hm] at ih
      split
      · next hkind =>
        cases more with
        | nil => exact .singleton _
        | cons v more =>
          obtain ⟨hne, hchain⟩ := List.isChain_cons_cons.1 ih
          exact List.isChain_cons_cons.2 ⟨hkind ▸ hne, hchain⟩
      · next hkind => exact List.isChain_cons_cons.2 ⟨hkind, ih⟩

/-- Joining neighbours keeps a cover of a text. -/
theorem Cover.merge {tokens : List Token} {text : List Char} (h : Cover tokens text) :
    Cover (Token.merge tokens) text := by
  refine ⟨(textOf_merge tokens).trans h.textOf_eq, ?_, ?_⟩
  · refine forall_mem_merge (fun t u ht hu _ he => ht ?_) h.nonempty
    exact (String.append_eq_empty_iff.1 he).1
  · exact forall_mem_merge (fun t u ht _ _ => ht) h.noError

end Token

namespace Scanner

open Text (Cursor)

section Steps

variable {t : ReadyTable} {g : Grammar} {nested : Nested} {k k' : Config} {tokens : List Token}

/-- A step makes tokens of what it takes. -/
theorem StepOf.textOf_eq (h : StepOf t g k tokens k') :
    Token.textOf tokens = k.cursor.upTo k'.cursor := by
  cases h with
  | stays => simp [Token.textOf, Token.ofChars]
  | opens => simp [Token.textOf, Token.ofChars]
  | closes =>
    dsimp only
    split
    · next he => simp [Token.textOf, List.isEmpty_iff.1 he]
    · simp [Token.textOf, Token.ofChars]

theorem StepOf.ne_error (h : StepOf t g k tokens k') : ∀ u ∈ tokens, u.kind ≠ .error := by
  intro u hu
  cases h with
  | stays _ hkind => exact List.mem_singleton.1 hu ▸ hkind
  | opens _ hkind => exact List.mem_singleton.1 hu ▸ hkind
  | closes hkind =>
    split at hu
    · simp at hu
    · exact List.mem_singleton.1 hu ▸ hkind

/-- A step takes text or closes a span, if no opening and no keyword matches the empty text. -/
theorem StepOf.takes_or_closes (hg : g.OpeningsTake) (h : StepOf t g k tokens k') :
    k'.cursor ≠ k.cursor ∨ k'.stack.length < k.stack.length := by
  cases h with
  | stays hp _ hm =>
    exact .inl (hg.neverEmpty_of_makesTokens hp _ _ (matchAt?_of_firstMatch? hm).2)
  | opens hp _ hm =>
    exact .inl (hg.neverEmpty_of_makesTokens hp _ _ (matchAt?_of_firstMatch? hm).2)
  | closes _ _ hstack =>
    right
    rw [hstack, List.length_cons]
    exact Nat.lt_succ_self _

theorem ofChars_text_ne_empty {kind : Kind} {c d : Cursor} (hlead : c.LeadsTo d) (hne : d ≠ c) :
    (Token.ofChars kind (c.upTo d)).text ≠ "" := by
  intro he
  have hnil := String.toList_eq_nil_iff.2 he
  rw [Token.ofChars, String.toList_ofList] at hnil
  exact hne (hlead.upTo_eq_nil.1 hnil)

theorem StepOf.text_ne_empty (hg : g.OpeningsTake) (h : StepOf t g k tokens k') :
    ∀ u ∈ tokens, u.text ≠ "" := by
  intro u hu
  have hlead := h.leadsTo
  cases h with
  | stays hp _ hm =>
    rw [List.mem_singleton.1 hu]
    exact ofChars_text_ne_empty hlead
      (hg.neverEmpty_of_makesTokens hp _ _ (matchAt?_of_firstMatch? hm).2)
  | opens hp _ hm =>
    rw [List.mem_singleton.1 hu]
    exact ofChars_text_ne_empty hlead
      (hg.neverEmpty_of_makesTokens hp _ _ (matchAt?_of_firstMatch? hm).2)
  | closes =>
    split at hu
    · simp at hu
    · next hne =>
      rw [List.mem_singleton.1 hu]
      refine ofChars_text_ne_empty hlead fun he => hne ?_
      exact List.isEmpty_iff.2 (hlead.upTo_eq_nil.2 he)

/-- A run has taken the text of its tokens. -/
theorem Steps.after_eq {n : Nat} (ht : t.IsOf g) (h : Steps t nested n k tokens k')
    (hk : Stacked t k.stack) :
    k.cursor.after = Token.textOf tokens ++ k'.cursor.after ∧ ∀ u ∈ tokens, u.kind ≠ .error := by
  induction h with
  | refl => exact ⟨rfl, by simp⟩
  | head hstep _ ih =>
    have hof := StepOf.of_step ht hk hstep
    obtain ⟨hafter, hkind⟩ := ih (hof.stacked hk)
    refine ⟨?_, fun u hu => (List.mem_append.1 hu).elim (hof.ne_error u) (hkind u)⟩
    rw [Token.textOf_append, List.append_assoc, ← hafter, hof.textOf_eq]
    exact hof.leadsTo.after_eq

theorem Steps.text_ne_empty {n : Nat} (ht : t.IsOf g) (hg : g.OpeningsTake)
    (h : Steps t nested n k tokens k') (hk : Stacked t k.stack) : ∀ u ∈ tokens, u.text ≠ "" := by
  induction h with
  | refl => simp
  | head hstep _ ih =>
    have hof := StepOf.of_step ht hk hstep
    intro u hu
    exact (List.mem_append.1 hu).elim (hof.text_ne_empty hg u) (ih (hof.stacked hk) u)

/-- A run is never stuck, if no opening and no keyword matches the empty text. -/
theorem not_stalls_of_openingsTake (ht : t.IsOf g) (hg : g.OpeningsTake)
    (hk : Stacked t k.stack) : ¬ Stalls t nested k := by
  rintro ⟨n, tokens, k', hs, hat⟩
  have hk' := hs.stacked ht hk
  cases hat with
  | stays hfirst hm hmoves =>
    obtain ⟨us, k₁, -, hof, hcursor, hstack⟩ := exists_step_of_firstMatch? nested ht hk' hfirst
    rcases hof.takes_or_closes hg with hne | hlt
    · exact hne (hcursor.trans hm)
    · rw [hstack, hmoves] at hlt
      exact Nat.lt_irrefl _ hlt
  | opens hfirst hm hmoves =>
    obtain ⟨us, k₁, -, hof, hcursor, hstack⟩ := exists_step_of_firstMatch? nested ht hk' hfirst
    rcases hof.takes_or_closes hg with hne | hlt
    · exact hne (hcursor.trans hm)
    · rw [hstack, hmoves] at hlt
      exact absurd hlt (Nat.lt_asymm (Nat.lt_succ_self _))

/-- **A scan covers the text,** if no opening and no keyword matches the empty text. -/
theorem exists_cover (ht : t.IsOf g) (hg : g.OpeningsTake) (text : List Char) :
    ∃ n tokens k, Steps t (nestedOf t text) n (startOf text) tokens k ∧ k.cursor.after = [] ∧
      step t (nestedOf t text) k = .ok none ∧ scan t text = .ok tokens ∧
      Token.Cover tokens text := by
  have hk : Stacked t (startOf text).stack := .root ht.root_mem
  obtain ⟨-, n, tokens, k, hs, hafter, hend, hscan⟩ | ⟨hstalls, -⟩ := scan_cases ht text
  · obtain ⟨htext, herror⟩ := hs.after_eq ht hk
    refine ⟨n, tokens, k, hs, hafter, hend, hscan, ?_, hs.text_ne_empty ht hg hk, herror⟩
    rw [hafter, List.append_nil] at htext
    exact htext.symm
  · exact absurd hstalls (not_stalls_of_openingsTake ht hg hk)

end Steps

end Scanner

open Scanner

/-- An engine's tokens are those of the lexer of a grammar, joined, if the name is that of the
grammar and no other lexer is kept for it. -/
theorem Engine.tokenize_eq {e : Engine} {name : String} {g : Grammar} {l : Lexer}
    (hget : e.get? name = some g) (hcompile : g.compile = .ok l)
    (hkept : ∀ l', e.lexers.lookup g.name = some l' → l' = l) {text : String}
    {tokens : List Token} (htokens : l.tokensOf .keepingLines text = .ok tokens) :
    e.tokenize text name = .ok (Token.merge tokens) := by
  have hlexer : ∃ e', e.lexer name = .ok (l, e') := by
    cases hlookup : e.lexers.lookup g.name with
    | none =>
      exact ⟨{ e with lexers := (g.name, l) :: e.lexers }, by
        simp only [Engine.lexer, hget, hlookup, hcompile]⟩
    | some l' =>
      obtain rfl := hkept l' hlookup
      exact ⟨e, by simp only [Engine.lexer, hget, hlookup]⟩
  obtain ⟨e', he⟩ := hlexer
  simp [Engine.tokenize, Engine.rawTokens, he, htokens, bind, Except.bind, pure, Except.pure,
    Except.map]

/-- **The tokens of a grammar's lexer are the text.**  The scan comes to the end of the prepared
text, the tokens are that text piece by piece, and an engine joins those of one kind. -/
theorem Grammar.tokens_lossless {g : Grammar} (hlexer : g.lexer = none) (htags : g.TagsKnown)
    (hread : g.PatternsRead) (hopen : g.OpeningsTake) :
    ∃ l table ready, g.compile = .ok l ∧ g.table = .ok table ∧
      table.ready g.scanFlags = .ok ready ∧
      ∀ text : String, ∃ tokens,
        (∃ n k, Steps ready (nestedOf ready (Preparation.keepingLines.apply text.toList)) n
            (startOf (Preparation.keepingLines.apply text.toList)) tokens k ∧
          k.cursor.after = [] ∧
          step ready (nestedOf ready (Preparation.keepingLines.apply text.toList)) k = .ok none) ∧
        l.tokensOf .keepingLines text = .ok tokens ∧
        Token.Cover tokens (Preparation.keepingLines.apply text.toList) ∧
        ∀ (e : Engine) (name : String), e.get? name = some g →
          (∀ l', e.lexers.lookup g.name = some l' → l' = l) →
          e.tokenize text name = .ok (Token.merge tokens) ∧
            Token.Cover (Token.merge tokens) (Preparation.keepingLines.apply text.toList) ∧
            (Token.merge tokens).IsChain fun t u => t.kind ≠ u.kind := by
  obtain ⟨table, ready, ht, hr, hof⟩ := Grammar.exists_ready htags hread
  obtain ⟨l, hl, hbody, hretag⟩ := Grammar.exists_ruleLexer hlexer ht
  refine ⟨l, table, ready, hl, ht, hr, fun text => ?_⟩
  obtain ⟨n, tokens, k, hs, hafter, hend, hscan, hcover⟩ :=
    exists_cover hof hopen (Preparation.keepingLines.apply text.toList)
  have htokens : l.tokensOf .keepingLines text = .ok tokens := by
    rw [Lexer.tokensOf, Lexer.tokens_of_ready hbody hretag hr, hscan]
    rfl
  refine ⟨tokens, ⟨n, k, hs, hafter, hend⟩, htokens, hcover, fun e name hget hkept => ?_⟩
  exact ⟨Engine.tokenize_eq hget hl hkept htokens, hcover.merge, Token.isChain_merge tokens⟩

/-- The grammar of the interface definition language is such a grammar, so an engine that knows it
tokenizes a line of documentation without loss. -/
theorem Language.Idl.tokenize_lossless :
    Idl.grammar.lexer = none ∧ Idl.grammar.TagsKnown ∧ Idl.grammar.PatternsRead ∧
      Idl.grammar.OpeningsTake ∧
      ∃ tokens, (⟨[("idl", Idl.grammar)], [], "default"⟩ : Engine).tokenize "@ an {Account}" "idl" =
          .ok tokens ∧
        Token.Cover tokens "@ an {Account}\n".toList := by
  refine ⟨rfl, tagsKnown, patternsRead, openingsTake, ?_⟩
  obtain ⟨l, table, ready, -, -, -, h⟩ :=
    Grammar.tokens_lossless rfl tagsKnown patternsRead openingsTake
  obtain ⟨tokens, -, -, -, hengine⟩ := h "@ an {Account}"
  obtain ⟨htokenize, hcover, -⟩ :=
    hengine ⟨[("idl", Idl.grammar)], [], "default"⟩ "idl" rfl (by simp)
  have hprepared : Preparation.keepingLines.apply "@ an {Account}".toList =
      "@ an {Account}\n".toList := by decide
  exact ⟨_, htokenize, hprepared ▸ hcover⟩

end DocHighlighter
