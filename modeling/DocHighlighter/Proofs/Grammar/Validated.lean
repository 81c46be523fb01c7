/-
# What the check of a grammar settles, and what it does not

A grammar without defects has known tags and patterns that can be read, and no
opening of it matches the empty text (`Grammar.checked_of_defects`).  That is less
than the scan needs: a word edge does not match the empty text, yet it matches
without taking text before a letter, and then the scan is stuck
(`defects_wordEdge`, `endless_wordEdge`).

For the grammars that pass the check, `Grammar.endless_iff_stallsOn` says exactly
when their lexers do not come to an end: on the texts on which the run gets stuck
(`StallsAt`).
-/

import DocHighlighter.Proofs.Grammar.Report
import DocHighlighter.Proofs.Grammar.Stalling

namespace DocHighlighter

open Scanner

/-- What is checked of a rule: its tag is known, its patterns can be read, and the opening does not
match the empty text. -/
structure SpanRule.Checked (r : SpanRule) : Prop where
  tag : (SpanRule.kindOf? r.tag).isSome
  opening : ∃ p, Pattern.read Grammar.checkFlags r.opening = .ok p ∧ p.matchesEmpty = false
  closing : ∀ written ∈ r.closing, ∃ p, Pattern.read Grammar.checkFlags written = .ok p

/-- **What the check settles:** all rules of a grammar without defects, at any depth, are
checked. -/
theorem Grammar.checked_of_defects {g : Grammar} (h : g.defects = .ok []) :
    ∀ r ∈ g.allRules, r.Checked := by
  intro r hr
  obtain ⟨path, hpath⟩ := exists_ruleAt? hr
  have hnone := not_hasDefect_of_defects h hpath
  refine ⟨?_, ?_, fun written hclosing => ?_⟩
  · cases hkind : SpanRule.kindOf? r.tag with
    | none => exact absurd (.unknownTag hkind) (hnone _ _)
    | some kind => rfl
  · cases hread : Pattern.read Grammar.checkFlags r.opening with
    | error fault => exact absurd (.invalidOpening hread) (hnone _ _)
    | ok p =>
      refine ⟨p, rfl, Bool.eq_false_iff.2 fun hempty => ?_⟩
      exact hnone _ _ (.matchesEmpty hread hempty)
  · cases hread : Pattern.read Grammar.checkFlags written with
    | error fault => exact absurd (.invalidClosing hclosing hread) (hnone _ _)
    | ok p => exact ⟨p, rfl⟩

/-- The run over a text by the table of a grammar comes to stand twice at one position with one
stack of states. -/
def Grammar.RepeatsOn (g : Grammar) (text : List Char) : Prop :=
  ∃ table ready, g.table = .ok table ∧ table.ready g.scanFlags = .ok ready ∧
    Repeats ready (nestedOf ready text) (startOf text)

/-- The run over a text by the table of a grammar gets stuck. -/
def Grammar.StallsOn (g : Grammar) (text : List Char) : Prop :=
  ∃ table ready, g.table = .ok table ∧ table.ready g.scanFlags = .ok ready ∧
    Stalls ready (nestedOf ready text) (startOf text)

/-- **When a checked grammar's lexer does not come to an end:** the run stands twice at one position
with one stack of states exactly if it gets stuck, and that is when it gives no tokens and no fault
of a pattern. -/
theorem Grammar.endless_iff_stallsOn {g : Grammar} (hlexer : g.lexer = none)
    (hdefects : g.defects = .ok []) :
    ∃ l, g.compile = .ok l ∧ ∀ (p : Preparation) (text : String),
      (g.RepeatsOn (p.apply text.toList) ↔ g.StallsOn (p.apply text.toList)) ∧
      (l.tokensOf p text = .error (.scan .endless) ↔ g.StallsOn (p.apply text.toList)) := by
  have htags : g.TagsKnown := fun r hr => (Grammar.checked_of_defects hdefects r hr).tag
  obtain ⟨table, ht⟩ := Grammar.exists_table htags
  obtain ⟨l, hl, hbody, hretag⟩ := Grammar.exists_ruleLexer hlexer ht
  refine ⟨l, hl, fun p text => ⟨?_, ?_⟩⟩
  · refine exists_congr fun table => exists_congr fun ready => ?_
    refine and_congr_right fun ht => and_congr_right fun hr => ?_
    have hof := Grammar.isOf_of_ready ht hr
    exact repeats_iff_stalls hof (.root hof.root_mem)
  · constructor
    · intro hend
      cases hr : table.ready g.scanFlags with
      | error fault =>
        rw [Lexer.tokensOf, Lexer.tokens, hbody] at hend
        dsimp only at hend
        rw [hr] at hend
        simp [bind, Except.bind] at hend
      | ok ready =>
        refine ⟨_, ready, ht, hr, ?_⟩
        obtain ⟨-, n, tokens, k, -, -, -, hscan⟩ | ⟨hstalls, -⟩ :=
          scan_cases (Grammar.isOf_of_ready ht hr) (p.apply text.toList)
        · rw [Lexer.tokensOf, Lexer.tokens_of_ready hbody hretag hr, hscan] at hend
          simp [Except.mapError] at hend
        · exact hstalls
    · rintro ⟨table, ready, ht', hr, hstalls⟩
      obtain rfl := Except.ok.inj (ht.symm.trans ht')
      obtain ⟨hno, -⟩ | ⟨-, hscan⟩ :=
        scan_cases (Grammar.isOf_of_ready ht hr) (p.apply text.toList)
      · exact absurd hstalls hno
      · rw [Lexer.tokensOf, Lexer.tokens_of_ready hbody hretag hr, hscan]
        rfl

/-- A grammar whose one opening matches at the edges of words and takes no text there. -/
def Grammar.wordEdge : Grammar where
  name := "g"
  displayName := "G"
  rules := [⟨"type", r"\b", none, []⟩]

theorem defects_wordEdge : Grammar.wordEdge.defects = .ok [] := by
  decide +kernel

/-- Before a letter, the run of `Grammar.wordEdge` is stuck from the start. -/
theorem stallsOn_wordEdge : Grammar.wordEdge.StallsOn "a\n".toList := by
  refine ⟨_, _, rfl, rfl, 0, [], _, .refl _, ?_⟩
  exact .stays rfl rfl rfl

/-- The check lets pass a grammar whose lexer does not come to an end. -/
theorem endless_wordEdge : Grammar.wordEdge.lexer = none ∧ Grammar.wordEdge.defects = .ok [] ∧
    ∃ l, Grammar.wordEdge.compile = .ok l ∧
      l.tokensOf .keepingLines "a" = .error (.scan .endless) := by
  obtain ⟨l, hl, h⟩ := Grammar.endless_iff_stallsOn (g := Grammar.wordEdge) rfl defects_wordEdge
  exact ⟨rfl, defects_wordEdge, l, hl, (h .keepingLines "a").2.2 stallsOn_wordEdge⟩

/-- **Passing the check is not enough:** some grammar without defects repeats itself on some
text. -/
theorem not_forall_not_repeatsOn : ¬ ∀ g : Grammar, g.lexer = none → g.defects = .ok [] →
    ∀ text : String, ¬ g.RepeatsOn (Preparation.keepingLines.apply text.toList) := by
  intro h
  obtain ⟨table, ready, ht, hr, hstalls⟩ := stallsOn_wordEdge
  have hof := Grammar.isOf_of_ready ht hr
  exact h Grammar.wordEdge rfl defects_wordEdge "a"
    ⟨table, ready, ht, hr, repeats_of_stalls hof (.root hof.root_mem) hstalls⟩

end DocHighlighter
