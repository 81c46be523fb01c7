/-
# Snippets are read as pages

A snippet is a text that writes elements, the first of them a block.  Read as a page it
becomes the content of the body; the page declares no kind, so it is old
(`Page.read_snippet`, from `Page.read_of_run`).  The first element that a selector finds there
is the first element of the snippet, if the selector finds that one and nothing around it
(`elementOf_written`).
-/

import DocHighlighter.Html.Selector
import DocHighlighter.Proofs.Html.Content

namespace DocHighlighter

theorem Text.unifyNewlines_of_not_mem {text : List Char} (h : '\r' ∉ text) :
    Text.unifyNewlines text = text := by
  induction text with
  | nil => rfl
  | cons c rest ih =>
    obtain ⟨hc, hrest⟩ := not_or.1 fun h' => h (List.mem_cons.2 h')
    have hcons : Text.unifyNewlines (c :: rest) = c :: Text.unifyNewlines rest := by
      rw [Text.unifyNewlines]
      · exact fun _ he => absurd he.symm hc
      · exact fun he => absurd he.symm hc
    rw [hcons, ih hrest]

namespace Html

open Token (WrittenTag WrittenAttribute closingText nameOf EndsText)

/-- The tag of a name without attributes. -/
def Tag.bare (name : String) : Tag := ⟨name, [], .page⟩

namespace Builder

/-- A page that declares no kind, when its body begins. -/
def snippetBody : Builder :=
  ({} : Builder).complete

theorem inBody_snippetBody : snippetBody.InBody false := by
  refine ⟨rfl, rfl, rfl, rfl, ⟨_, _, rfl, rfl⟩, ?_, ?_, fun _ => rfl⟩
  · intro f hf
    rcases List.mem_cons.1 hf with rfl | hf
    · rfl
    · obtain rfl := List.mem_singleton.1 hf
      rfl
  · intro e he
    exact absurd he List.not_mem_nil

/-- A block at the very start of a page opens the root, the head and the body before it. -/
theorem step_start {name : String} (hname : name = "pre" ∨ name = "div")
    (attributes : List Attribute) :
    ({} : Builder).step (.opening name attributes false) =
      snippetBody.step (.opening name attributes false) := by
  rcases hname with rfl | rfl <;> rfl

/-- So does its markup. -/
theorem run_start {t : WrittenTag} (ht : t.IsPlain) (hself : t.selfClosing = false)
    (hname : nameOf t.name = "pre" ∨ nameOf t.name = "div") (inner more : List Char) :
    ({} : Builder).run (elementText t inner ++ more) =
      snippetBody.run (elementText t inner ++ more) := by
  have htext : elementText t inner ++ more =
      '<' :: (t.text ++ (inner ++ ('<' :: closingText t.name ++ more))) := by
    simp [elementText]
  have hreading : ({} : Builder).reading = .markup false := rfl
  rw [htext, run_opening hreading ht, run_opening inBody_snippetBody.reading ht, hself,
    step_start hname]

/-- Reading a snippet puts its nodes into the body of a page. -/
theorem run_snippet {text : List Char} {tag : Tag} {children rest : List Node}
    (h : Written false text (.element tag children :: rest))
    (hname : tag.name = "pre" ∨ tag.name = "div") :
    ∃ id, ({} : Builder).run text =
      (snippetBody.add (.element tag children :: rest)).withNext id := by
  obtain ⟨id, hrun⟩ := run_of_written h inBody_snippetBody (.inl rfl)
  rw [List.append_nil, run_nil] at hrun
  refine ⟨id, hrun ▸ ?_⟩
  cases h with
  | plain ht hself => exact run_start ht hself hname ..
  | pre ht hself hpre => exact run_start ht hself (.inl hpre) ..
  | code => exact absurd hname (by simp)
  | drawing =>
    have hsvg : Foreign.capitalised Foreign.elementNames "svg" = "svg" := by decide
    have hnot : ¬ (Foreign.capitalised Foreign.elementNames "svg" = "pre" ∨
        Foreign.capitalised Foreign.elementNames "svg" = "div") := by
      rw [hsvg]
      decide
    exact absurd hname hnot

/-- When only the body and the root are open at the end of a page, it is complete. -/
theorem finish_eq {b : Builder} {body root : Frame} (hmode : b.mode = .inBody ∨ b.mode = .afterRoot)
    (hs : b.stack = [body, root]) (hhome : body.home = .within) (hbehind : b.behindBody = []) :
    b.finish = { isOld := b.isOld, before := b.before.reverse,
                 root := .element root.tag (push body.node root.children).reverse,
                 after := b.after.reverse } := by
  have hend : b.endText = b := by
    rcases hmode with hmode | hmode <;> simp [endText, hmode]
  have hcomplete : b.complete = b := by
    rcases hmode with hmode | hmode <;> simp [complete, hmode]
  have hpop : Stack.popMany (b.stack.length - 1) b.stack =
      [{ root with children := push body.node root.children }] := by
    simp [hs, Stack.popMany, Stack.pop, hhome, Stack.attach, Stack.attachWithin]
  simp only [finish, hend, hcomplete, hpop, hbehind, List.reverse_nil, List.append_nil]

end Builder

/-- What is put into the body of a snippet is the body of a page. -/
theorem Page.read_of_run {text : List Char} {ns : List Node} {id : Nat}
    (hrun : ({} : Builder).run (Text.unifyNewlines text) =
      (Builder.snippetBody.add ns).withNext id) (hns : Node.Separate ns) :
    (Page.read text).isOld = true ∧ (Page.read text).root =
      .element (.bare "html") [.element (.bare "head") [], .element (.bare "body") ns] := by
  have hstack : ((Builder.snippetBody.add ns).withNext id).stack =
      [⟨.bare "body", 2, .within, ns.foldl (fun cs n => push n cs) []⟩,
        ⟨.bare "html", 0, .within, [.element (.bare "head") []]⟩] := foldl_attachWithin ..
  rw [Page.read, hrun, Builder.finish_eq (.inl rfl) hstack rfl rfl]
  refine ⟨rfl, ?_⟩
  rw [Frame.node, reverse_foldl_push hns]
  rfl

/-- **A snippet is the body of a page.** -/
theorem Page.read_snippet {text : List Char} {tag : Tag} {children rest : List Node}
    (h : Written false text (.element tag children :: rest))
    (hname : tag.name = "pre" ∨ tag.name = "div") (hreturn : '\r' ∉ text) :
    (Page.read text).isOld = true ∧ (Page.read text).root =
      .element (.bare "html") [.element (.bare "head") [],
        .element (.bare "body") (.element tag children :: rest)] := by
  obtain ⟨id, hrun⟩ := Builder.run_snippet h hname
  rw [← Text.unifyNewlines_of_not_mem hreturn] at hrun
  exact Page.read_of_run hrun h.separate

/-- What a selector finds first on a page is the first element of the body, if it finds that one
and none of those that every page has. -/
theorem elementOf_of_read {text : List Char} {tag : Tag} {children rest : List Node}
    {selector : String}
    (hread : (Page.read text).isOld = true ∧ (Page.read text).root =
      .element (.bare "html") [.element (.bare "head") [],
        .element (.bare "body") (.element tag children :: rest)])
    (haround : ∀ parent, ∀ name ∈ ["html", "head", "body"],
      (Selector.read selector).fits true parent (.bare name) = false)
    (hfits : (Selector.read selector).fits true (some (.bare "body")) tag = true) :
    elementOf text selector = .ok (.element tag children) := by
  obtain ⟨hold, hroot⟩ := hread
  have hselect : (((Page.read text).select (Selector.read selector)).head?) =
      some (.element tag children) := by
    simp [Page.select, hold, hroot, Selector.selectIn, Selector.selectAll, haround, hfits]
  rw [elementOf, hselect]

/-- So it is the first element of a snippet. -/
theorem elementOf_written {text : List Char} {tag : Tag} {children rest : List Node}
    {selector : String} (h : Written false text (.element tag children :: rest))
    (hname : tag.name = "pre" ∨ tag.name = "div") (hreturn : '\r' ∉ text)
    (haround : ∀ parent, ∀ name ∈ ["html", "head", "body"],
      (Selector.read selector).fits true parent (.bare name) = false)
    (hfits : (Selector.read selector).fits true (some (.bare "body")) tag = true) :
    elementOf text selector = .ok (.element tag children) :=
  elementOf_of_read (Page.read_snippet h hname hreturn) haround hfits

end Html
end DocHighlighter
