/-
# Spans write the text of their tokens

Highlighted code is markup again: texts, and spans with a class that hold one
(`Node.IsSpan`).  Each piece of it writes its text, and so what is written for tokens
says the text of the tokens, without the newlines at the end
(`Spans.ofTokens_writes`), whatever the kinds of the tokens are.
-/

import DocHighlighter.Proofs.Highlight.Pieces
import DocHighlighter.Proofs.Html.Content

namespace DocHighlighter

open Html

/-- The tag of a span for a kind of tokens. -/
def Kind.spanTag (kind : Kind) : Tag :=
  ⟨"span", [⟨"class", kind.cssClass.toList⟩], .page⟩

/-- What highlighted code is made of: texts, and spans of kinds that hold one. -/
inductive Html.Node.IsSpan : Node → Prop
  | text {s : List Char} (hs : '\r' ∉ s) : IsSpan (.text s)
  | span {kind : Kind} {s : List Char} (hs : '\r' ∉ s) :
      IsSpan (.element kind.spanTag [.text s])

namespace Spans

/-- A piece of markup writes a text in spans, whatever is written behind it. -/
structure Writes (w s : List Char) : Prop where
  noReturn : '\r' ∉ w
  before : ∀ (rest : List Char) (ns : List Node), Written true rest ns → (∀ n ∈ ns, n.IsSpan) →
    ∃ ms, Written true (w ++ rest) ms ∧ (∀ n ∈ ms, n.IsSpan) ∧
      Node.textContents ms = s ++ Node.textContents ns

theorem writes_nil : Writes [] [] :=
  ⟨List.not_mem_nil, fun _ ns h hns => ⟨ns, h, hns, rfl⟩⟩

theorem Writes.append {w v s t : List Char} (hw : Writes w s) (hv : Writes v t) :
    Writes (w ++ v) (s ++ t) := by
  refine ⟨fun h => (List.mem_append.1 h).elim hw.noReturn hv.noReturn, fun rest ns h hns => ?_⟩
  obtain ⟨ms, hms, hspans, htext⟩ := hv.before rest ns h hns
  obtain ⟨ks, hks, hspans, htext'⟩ := hw.before (v ++ rest) ms hms hspans
  refine ⟨ks, by rwa [List.append_assoc], hspans, ?_⟩
  rw [htext', htext, List.append_assoc]

/-- What is written alone is content. -/
theorem Writes.written {w s : List Char} (h : Writes w s) :
    ∃ ns, Written true w ns ∧ (∀ n ∈ ns, n.IsSpan) ∧ Node.textContents ns = s := by
  obtain ⟨ns, hns, hspans, htext⟩ := h.before [] [] .nil (by simp)
  rw [List.append_nil] at hns
  exact ⟨ns, hns, hspans, by rw [htext, Node.textContents, List.append_nil]⟩

/-- A character that no page treats specially. -/
def IsPlainChar (c : Char) : Prop :=
  c ≠ '\x00' ∧ c ≠ '\r'

/-- An escaped text writes itself. -/
theorem writes_escapeText {s : List Char} (hs : ∀ c ∈ s, IsPlainChar c) :
    Writes (Text.escapeText s) s := by
  have hnul : '\x00' ∉ s := fun hmem => (hs _ hmem).1 rfl
  have hreturn : '\r' ∉ s := fun hmem => (hs _ hmem).2 rfl
  refine ⟨fun h => hreturn (escape_escapeChar.mem_of_mem_flatMap (by decide) h),
    fun rest ns h hns => ?_⟩
  refine ⟨joinText s ns, h.text_append escape_escapeChar hnul, ?_, textContents_joinText s ns⟩
  intro n hn
  unfold joinText at hn
  split at hn
  · next t more =>
    rcases List.mem_cons.1 hn with rfl | hn
    · have ht : '\r' ∉ t := by
        cases hns _ List.mem_cons_self with
        | text ht => exact ht
      exact .text fun hmem => (List.mem_append.1 hmem).elim hreturn ht
    · exact hns n (List.mem_cons_of_mem _ hn)
  · split at hn
    · exact hns n hn
    · rcases List.mem_cons.1 hn with rfl | hn
      · exact .text hreturn
      · exact hns n hn

/-- The class of a kind has no sign that would have to be escaped. -/
theorem not_mem_cssClass (kind : Kind) : ∀ d ∈ classSigns, d ∉ kind.cssClass.toList := by
  have hsigns : ∀ d ∈ classSigns, isClassChar d = false := by decide
  exact fun d hd => IsKindClass.not_mem ⟨kind, rfl⟩ (hsigns d hd)

theorem IsKindClass.not_mem_classSigns {cls : String} (h : IsKindClass cls) :
    ∀ d ∈ classSigns, d ∉ cls.toList := by
  obtain ⟨kind, rfl⟩ := h
  exact not_mem_cssClass kind

/-- A text in a span of a class, or in none if the class is empty, writes itself. -/
theorem writes_span {cls : String} (hcls : IsKindClass cls) {s : List Char}
    (hs : ∀ c ∈ s, IsPlainChar c) (hne : s ≠ []) :
    Writes (opener cls ++ Text.escapeText s ++ closer cls) s := by
  by_cases hempty : cls.isEmpty
  · have hplain := writes_escapeText hs
    simpa [opener, closer, hempty] using hplain
  · have hsign := hcls.not_mem_classSigns
    have hnul : '\x00' ∉ s := fun hmem => (hs _ hmem).1 rfl
    have hreturn : '\r' ∉ s := fun hmem => (hs _ hmem).2 rfl
    have hescaped : '\r' ∉ Text.escapeText s := (writes_escapeText hs).noReturn
    refine ⟨?_, fun rest ns h hns => ?_⟩
    · simp [opener, closer, hempty, hescaped, hsign '\r' (by decide)]
    have htext : opener cls ++ Text.escapeText s ++ closer cls ++ rest =
        elementText (singleTag "span" "class" cls.toList) (s.flatMap Text.escapeChar) ++ rest := by
      simp [opener, closer, hempty, elementText, singleTag, Token.WrittenTag.text,
        Token.WrittenAttribute.text, Token.tagEnd, Token.closingText, Text.escapeText]
    obtain ⟨ht, hread⟩ := singleTag_class (by decide : Token.IsTagName "span".toList) hsign
    have hname : Token.nameOf "span".toList = "span" := by decide
    have hinner : Written true (s.flatMap Text.escapeChar) [.text s] := by
      have hnodes := written_textNodes (k := true) escape_escapeChar hnul
      rwa [textNodes_eq, if_neg (by simpa using hne)] at hnodes
    have helement :=
      Written.plain ht rfl (by rw [singleTag, hname]; exact isPlainName_span) hinner h
    rw [hread] at helement
    refine ⟨_, by rw [htext]; exact helement, ?_, ?_⟩
    · intro n hn
      rcases List.mem_cons.1 hn with rfl | hn
      · obtain ⟨kind, rfl⟩ := hcls
        exact .span hreturn
      · exact hns n hn
    · simp [Node.textContents, Node.textContent]

/-- Pieces of markup write what they say. -/
theorem Made.writes {w s : List Char} (h : Made w s) (hs : ∀ c ∈ s, IsPlainChar c) :
    Writes w s := by
  obtain ⟨pieces, hpieces, rfl, rfl⟩ := h
  induction pieces with
  | nil => exact writes_nil
  | cons p pieces ih =>
    rw [List.flatMap_cons] at hs ⊢
    rw [List.flatMap_cons]
    have hrest := ih (fun q hq => hpieces q (List.mem_cons_of_mem _ hq))
      fun c hc => hs c (List.mem_append_right _ hc)
    refine Writes.append ?_ hrest
    have hchars : ∀ c ∈ p.chars, IsPlainChar c := fun c hc => hs c (List.mem_append_left _ hc)
    cases p with
    | text t => exact writes_escapeText hchars
    | span cls t =>
      obtain ⟨hcls, hne, ht, -⟩ := hpieces _ List.mem_cons_self
      rw [markup_span hne]
      exact writes_span hcls hchars ht

/-- **Spans write the text of their tokens,** without the newlines at its end. -/
theorem ofTokens_writes {tokens : List Token} (h : ∀ c ∈ Token.textOf tokens, IsPlainChar c) :
    Writes (ofTokens tokens).toList (Text.stripEnd (· == '\n') (Token.textOf tokens)) :=
  (ofTokens_made tokens).writes fun c hc => h c (Text.mem_of_mem_stripEnd hc)

end Spans
end DocHighlighter
