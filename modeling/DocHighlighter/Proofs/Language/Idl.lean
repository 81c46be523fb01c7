/-
# The interface definition language can be scanned

All tags of its grammar are known, all patterns can be read, and no opening and no
keyword matches the empty text: every opening begins with a sign of its own, so its
least width is not zero.
-/

import DocHighlighter.Language.Idl
import DocHighlighter.Proofs.Grammar.Ready

namespace DocHighlighter

/-- A set of words has them all, and no others. -/
theorem Grammar.mem_wordSet {w : String} {words : List String} :
    w ∈ Grammar.wordSet words ↔ w ∈ words := by
  have hfold : ∀ sorted : List String,
      w ∈ sorted.foldr (fun w set => if set.head? = some w then set else w :: set) [] ↔
        w ∈ sorted := by
    intro sorted
    induction sorted with
    | nil => exact Iff.rfl
    | cons v rest ih =>
      rw [List.foldr_cons, List.mem_cons, ← ih]
      split
      · next hhead =>
        refine ⟨.inr, fun hw => hw.elim (fun heq => ?_) id⟩
        rw [heq]
        exact List.mem_of_mem_head? hhead
      · exact List.mem_cons
  exact (hfold _).trans List.mem_mergeSort

namespace Language
namespace Idl

/-- Whether a pattern can be read, and takes so many characters at least. -/
def readsWith (least : Nat) (written : String) : Bool :=
  match Pattern.read grammar.scanFlags written with
  | .ok p => least ≤ p.expr.least
  | .error _ => false

theorem exists_read_of_readsWith {least : Nat} {written : String}
    (h : readsWith least written = true) :
    ∃ p, Pattern.read grammar.scanFlags written = .ok p ∧ least ≤ p.expr.least := by
  unfold readsWith at h
  split at h
  · next p hp => exact ⟨p, hp, by simpa using h⟩
  · simp at h

theorem readsWith_of_mem : ∀ r ∈ grammar.allRules,
    readsWith 1 r.opening = true ∧ r.closing.all (readsWith 0) = true := by
  decide +kernel

theorem tagsKnown : grammar.TagsKnown := by
  unfold Grammar.TagsKnown
  decide +kernel

theorem patternsRead : grammar.PatternsRead := by
  intro r hr
  obtain ⟨hopening, hclosing⟩ := readsWith_of_mem r hr
  refine ⟨?_, fun written hwritten => ?_⟩
  · obtain ⟨p, hp, -⟩ := exists_read_of_readsWith hopening
    exact ⟨p, hp⟩
  · rw [Option.mem_def.1 hwritten] at hclosing
    obtain ⟨p, hp, -⟩ := exists_read_of_readsWith hclosing
    exact ⟨p, hp⟩

theorem openingsTake : grammar.OpeningsTake := by
  refine ⟨fun r hr p hp => ?_, fun hempty => ?_⟩
  · obtain ⟨⟨e, f⟩, hp', hleast⟩ := exists_read_of_readsWith (readsWith_of_mem r hr).1
    obtain rfl := Except.ok.inj (hp'.symm.trans hp)
    exact Pattern.neverEmpty_of_least f (Nat.ne_of_gt hleast)
  · exact absurd (Grammar.mem_wordSet.1 hempty) (by decide)

end Idl
end Language
end DocHighlighter
