/-
# Regular content is read as it stands

Reading the markup of regular content in a body adds that content, but for newlines at the start of
preformatted text (`Builder.readsBack_of_regular`), whatever stands behind it on the page.

The induction is on the content.  What it carries is that no paragraph is open, and that the
formatting that goes on is that of elements which are open around (`Builder.Around`): so the end tag
of a formatting element closes just that element.
-/

import DocHighlighter.Proofs.Html.Regular
import Mathlib.Data.List.TakeWhile

namespace DocHighlighter
namespace Html

open Token (WrittenTag closingText nameOf EndsText)

namespace Builder

/-- The page is in its body, at a place where no paragraph is open, and the formatting that goes on
is that of open elements with some names. -/
structure Around (names : List String) (b : Builder) : Prop extends InBody true b where
  formats : ∀ e ∈ b.formatting, ∃ name ∈ names, e.hasName name = true
  fresh : ∀ f ∈ b.stack, f.id < b.nextId

variable {b : Builder} {names : List String} {tag : Tag}

namespace Around

theorem add (h : b.Around names) (ns : List Node) {id : Nat} (hid : b.nextId ≤ id) :
    ((b.add ns).withNext id).Around names := by
  refine ⟨h.toInBody.add ns id, h.formats, ?_⟩
  obtain ⟨f, s, hs, -⟩ := h.top
  have hstack : ((b.add ns).withNext id).stack =
      { f with children := ns.foldl (fun cs n => push n cs) f.children } :: s := stack_add hs ns
  have hfresh := h.fresh
  rw [hs, List.forall_mem_cons] at hfresh
  rw [hstack, List.forall_mem_cons]
  exact ⟨hfresh.1.trans_le hid, fun g hg => (hfresh.2 g hg).trans_le hid⟩

theorem opened (h : b.Around names) (hspace : tag.space = .page) (hp : tag.name ≠ "p") :
    (b.opened tag).Around names := by
  refine ⟨h.toInBody.opened hspace hp, h.formats, fun f hf => ?_⟩
  rcases List.mem_cons.1 hf with rfl | hf
  · exact Nat.lt_succ_self _
  · exact (h.fresh f hf).trans (Nat.lt_succ_self _)

theorem isMark_eq (h : b.Around names) {e : Format} (he : e ∈ b.formatting) :
    (!e.isMark) = true := by
  obtain ⟨name, -, hname⟩ := h.formats e he
  cases e with
  | mark => cases hname
  | element => rfl

/-- No mark cuts off formatting. -/
theorem takeWhile_formatting (h : b.Around names) :
    b.formatting.takeWhile (!·.isMark) = b.formatting :=
  List.takeWhile_eq_self_iff.2 fun _ he => h.isMark_eq he

theorem dropWhile_formatting (h : b.Around names) : b.formatting.dropWhile (!·.isMark) = [] :=
  List.dropWhile_eq_nil_iff.2 fun _ he => h.isMark_eq he

/-- Formatting of another name does not go on. -/
theorem hasName_eq_false (h : b.Around names) {name : String} (hname : name ∉ names) {e : Format}
    (he : e ∈ b.formatting) : e.hasName name = false := by
  obtain ⟨name', hmem, hname'⟩ := h.formats e he
  cases e with
  | mark => rfl
  | element id tag =>
    rw [Format.hasName, beq_iff_eq] at hname'
    rw [Format.hasName, beq_eq_false_iff_ne, hname']
    rintro rfl
    exact hname hmem

end Around

/-- A formatting element is open, with nothing in it yet, and goes on. -/
def goesOn (b : Builder) (tag : Tag) : Builder :=
  { b.opened tag with formatting := .element b.nextId tag :: b.formatting }

namespace Around

theorem insertFormat_eq (h : b.Around names) (hname : tag.name ∉ names) :
    b.insertFormat tag = b.goesOn tag := by
  have halike : b.formatting.filter (·.hasTag tag) = [] := by
    refine List.filter_eq_nil_iff.2 fun e he htag => ?_
    have hother := h.hasName_eq_false hname he
    cases e with
    | mark => cases htag
    | element id tag' =>
      rw [Format.hasTag, beq_iff_eq] at htag
      rw [htag, Format.hasName, beq_self_eq_true] at hother
      cases hother
  simp only [insertFormat, onOpen, Open.pushFormat, h.takeWhile_formatting, h.dropWhile_formatting,
    halike, h.home_eq, goesOn, List.append_nil]
  rfl

theorem goesOn (h : b.Around names) (hspace : tag.space = .page) (hp : tag.name ≠ "p") :
    (b.goesOn tag).Around (tag.name :: names) := by
  have hopened := h.opened hspace hp
  refine ⟨⟨h.mode, h.textReading, h.dropsNewline, h.outsideTable, hopened.top,
    hopened.noParagraph, ?_, nofun⟩, ?_, hopened.fresh⟩
  · intro e he
    rcases List.mem_cons.1 he with rfl | he
    · have hopen : ((b.goesOn tag).stack.any (·.id == b.nextId)) = true := by
        simp [Builder.goesOn, Builder.opened]
      exact hopen
    · exact hopened.settled e he
  · intro e he
    rcases List.mem_cons.1 he with rfl | he
    · exact ⟨tag.name, List.mem_cons_self, beq_self_eq_true _⟩
    · obtain ⟨name, hmem, hname⟩ := h.formats e he
      exact ⟨name, List.mem_cons_of_mem _ hmem, hname⟩

/-- What goes on is not the next element. -/
theorem hasId_eq_false (h : b.Around names) {e : Format} (he : e ∈ b.formatting) :
    e.hasId b.nextId = false := by
  have hsettled := h.settled e he
  cases e with
  | mark => rfl
  | element id tag =>
    obtain ⟨f, hf, hid⟩ := List.any_eq_true.1 (show b.stack.any (·.id == id) = true from hsettled)
    rw [beq_iff_eq] at hid
    rw [Format.hasId, ← hid, beq_eq_false_iff_ne]
    exact (h.fresh f hf).ne

/-- The end tag of a formatting element closes it, and it does not go on. -/
theorem adopt_goesOn (h : b.Around names) (hspace : tag.space = .page) {ns : List Node}
    (hns : Node.Separate ns) (id : Nat) :
    (((b.goesOn tag).add ns).withNext id).adopt tag.name =
      (b.add [.element tag ns]).withNext id := by
  have hstack : (((b.goesOn tag).add ns).withNext id).stack =
      ⟨tag, b.nextId, .within, ns.foldl (fun cs n => push n cs) []⟩ :: b.stack :=
    stack_add_opened b tag ns
  have hformatting : (((b.goesOn tag).add ns).withNext id).formatting =
      .element b.nextId tag :: b.formatting := rfl
  have hname : Frame.isPage tag.name
      ⟨tag, b.nextId, .within, ns.foldl (fun cs n => push n cs) []⟩ = true := by
    simp [Frame.isPage, Tag.isPage, hspace]
  have hforgotten : b.formatting.filter (!·.hasId b.nextId) = b.formatting :=
    List.filter_eq_self.2 fun e he => by rw [h.hasId_eq_false he]; rfl
  have hown : Format.hasId b.nextId (.element b.nextId tag) = true := beq_self_eq_true _
  have hadopt : Open.adopt (home (((b.goesOn tag).add ns).withNext id).outsideTable) tag.name
      (((b.goesOn tag).add ns).withNext id).toOpen =
        { (((b.goesOn tag).add ns).withNext id).toOpen with
          stack := Stack.pop (((b.goesOn tag).add ns).withNext id).stack
          formatting := b.formatting } := by
    simp [Open.adopt, hstack, hname, hformatting, hown, Open.adoptMany, Format.isMark,
      Format.hasName, Open.forget, Stack.popMany, hforgotten]
  have hpop := pop_opened b tag hns id
  have hleft : (((b.goesOn tag).add ns).withNext id).adopt tag.name =
      { (((b.opened tag).add ns).withNext id).onStack Stack.pop with
        formatting := b.formatting } := by
    simp only [adopt, onOpen, hadopt]
    rfl
  rw [hleft, hpop]
  rfl

end Around

/-! ## Tags of the four kinds -/

section Names

variable {name : String}

theorem preformatted_of_mem : ∀ name ∈ preformattedNames, name ∉ headNames ∧
    openingRule name = .preformatted ∧ name ∈ closedNames ∧ name ≠ "p" ∧ name ≠ "body" ∧
    name ≠ "html" ∧ voidNames.contains name = false ∧ plainTextNames.contains name = false := by
  decide +kernel

theorem Around.openInBody_preformatted (h : b.Around names) (hname : name ∈ preformattedNames)
    (attributes : List Attribute) : b.openInBody name attributes false =
      { b.opened ⟨name, attributes, .page⟩ with dropsNewline := true } := by
  obtain ⟨hhead, hrule, -⟩ := preformatted_of_mem name hname
  simp only [openInBody, headElement?_eq_none hhead, hrule, h.closeParagraph_eq, h.insert_eq]

theorem closeInBody_preformatted (hname : name ∈ preformattedNames) {f : Frame} {s : Stack}
    (hs : b.stack = f :: s) (hf : f.isPage name = true) :
    b.closeInBody name = b.onStack Stack.pop := by
  obtain ⟨-, -, hclosed, -, hbody, hhtml, -⟩ := preformatted_of_mem name hname
  have hcloses : b.closeInBody name = b.closeWithin Frame.bounds (·.isPage name) := by
    simp [closeInBody, hbody, hhtml, hclosed]
  rw [hcloses, closeWithin_top hs hf]

theorem formatting_of_mem : ∀ name ∈ "a" :: formatNames, name ∉ headNames ∧
    (openingRule name = .format ∨ name = "a" ∧ openingRule name = .anchor) ∧ name ∉ closedNames ∧
    name ∉ ["p", "body", "html", "li", "dd", "dt", "h1", "h2", "h3", "h4", "h5", "h6"] ∧
    voidNames.contains name = false ∧ plainTextNames.contains name = false := by
  decide +kernel

theorem Around.openInBody_formatting (h : b.Around names) (hname : name ∈ "a" :: formatNames)
    (hnot : name ∉ names) (attributes : List Attribute) :
    b.openInBody name attributes false = b.goesOn ⟨name, attributes, .page⟩ := by
  obtain ⟨hhead, hrule, -⟩ := formatting_of_mem name hname
  have hinsert : b.insertFormat ⟨name, attributes, .page⟩ = b.goesOn ⟨name, attributes, .page⟩ :=
    h.insertFormat_eq hnot
  rcases hrule with hrule | ⟨rfl, hrule⟩
  · simp only [openInBody, headElement?_eq_none hhead, hrule, h.restart_eq, hinsert]
  · have hinner : (b.formatting.takeWhile (!·.isMark)).any (·.hasName "a") = false := by
      rw [h.takeWhile_formatting, List.any_eq_false]
      exact fun e he => by rw [h.hasName_eq_false hnot he]; exact Bool.false_ne_true
    simp only [openInBody, headElement?_eq_none hhead, hrule, hinner, Bool.false_eq_true, if_false,
      h.restart_eq, hinsert]

theorem closeInBody_formatting (hname : name ∈ "a" :: formatNames) (b : Builder) :
    b.closeInBody name = b.adopt name := by
  obtain ⟨-, -, hclosed, hruled, -⟩ := formatting_of_mem name hname
  simp only [List.mem_cons, List.not_mem_nil, or_false, not_or] at hruled
  rcases List.mem_cons.1 hname with rfl | hformat
  · rfl
  · simp [closeInBody, hruled, hclosed, hformat]

theorem empty_of_mem : ∀ name ∈ emptyNames, name ∉ headNames ∧
    (openingRule name = .empty ∨ openingRule name = .emptyInfo ∨ openingRule name = .line) ∧
    voidNames.contains name = true ∧ plainTextNames.contains name = false := by
  decide +kernel

theorem Around.openInBody_empty (h : b.Around names) (hname : name ∈ emptyNames)
    (attributes : List Attribute) :
    b.openInBody name attributes false = b.add [.element ⟨name, attributes, .page⟩ []] := by
  obtain ⟨hhead, hrule, -⟩ := empty_of_mem name hname
  rcases hrule with hrule | hrule | hrule
  · simp only [openInBody, headElement?_eq_none hhead, hrule, h.restart_eq, h.insertNode_eq]
  · simp only [openInBody, headElement?_eq_none hhead, hrule, h.insertNode_eq]
  · simp only [openInBody, headElement?_eq_none hhead, hrule, h.closeParagraph_eq, h.insertNode_eq]

end Names

/-! ## Nodes -/

/-- The markup of a node adds the node as it is read. -/
def ReadsBack (names : List String) (n : Node) : Prop :=
  ∀ {b : Builder}, b.Around names → ∀ {page : List Char}, (n.isText = true → EndsText page) →
    ∃ id, b.nextId ≤ id ∧ b.run (n.markup ++ page) = ((b.add [n.reread]).withNext id).run page

/-- What is read behind what has been added. -/
theorem run_add {ms ns : List Node} {text page : List Char} {i : Nat} (hi : b.nextId ≤ i)
    (h : ∃ id, i ≤ id ∧ ((b.add ms).withNext i).run text =
      ((((b.add ms).withNext i).add ns).withNext id).run page) :
    ∃ id, b.nextId ≤ id ∧ ((b.add ms).withNext i).run text =
      ((b.add (ms ++ ns)).withNext id).run page := by
  obtain ⟨id, hid, hrun⟩ := h
  rw [add_withNext, add_add, withNext_withNext] at hrun
  exact ⟨id, hi.trans hid, hrun⟩

/-- What stands behind a text ends it, if it begins with no text. -/
theorem endsText_markups {ns : List Node} (hns : ∀ n ∈ ns, n.Regular names)
    (hfirst : NoTextFirst ns) {page : List Char} (hpage : EndsText page) : EndsText (Node.markupsIn false ns ++ page) := by
  cases ns with
  | nil => exact hpage
  | cons n rest =>
    rw [Node.markupsIn, List.append_assoc]
    exact ((hns n List.mem_cons_self).startsMarkup (hfirst n rfl) _).endsText

/-- Nodes side by side are read one after the other. -/
theorem run_of_readsBack {ns : List Node} (hns : ∀ n ∈ ns, n.Regular names)
    (hread : ∀ n ∈ ns, ReadsBack names n) (hseparate : Node.Separate ns) (hb : b.Around names)
    {page : List Char} (hpage : EndsText page) :
    ∃ id, b.nextId ≤ id ∧ b.run (Node.markupsIn false ns ++ page) =
      ((b.add (Node.rereadAll ns)).withNext id).run page := by
  induction ns generalizing b with
  | nil => exact ⟨b.nextId, Nat.le_refl _, rfl⟩
  | cons n rest ih =>
    have hlater := fun m hm => hns m (List.mem_cons_of_mem _ hm)
    obtain ⟨i, hi, hfirst⟩ := hread n List.mem_cons_self hb fun hn =>
      endsText_markups hlater (hseparate.noTextFirst hn) hpage
    have hrest := ih hlater
      (fun m hm => hread m (List.mem_cons_of_mem _ hm)) hseparate.tail (hb.add [n.reread] hi)
    rw [Node.markupsIn, List.append_assoc]
    show ∃ id, _ ∧ b.run (n.markup ++ _) = _
    rw [hfirst]
    exact run_add hi hrest

/-- Before markup, it makes no difference whether a newline counts. -/
theorem run_dropsNewline_of_startsMarkup (hb : b.Around names) {text : List Char}
    (h : StartsMarkup text) : ({ b with dropsNewline := true } : Builder).run text = b.run text := by
  obtain ⟨rest, t, tail, rfl, -, hnext, ht⟩ := h
  have hreading : ({ b with dropsNewline := true } : Builder).reading = .markup false := hb.reading
  rw [run_of_next (by rw [hreading]; exact hnext), run_of_next (by rw [hb.reading]; exact hnext),
    step_dropsNewline ht hb.dropsNewline]

theorem step_dropsNewline_of_text (hb : b.Around names) (content : List Char) :
    ({ b with dropsNewline := true } : Builder).step (.text content) =
      match withoutNewline (.text content) with
      | none => b
      | some t => b.step t := by
  have hkeep : { b with dropsNewline := false } = b := by
    rw [← hb.dropsNewline]
  cases hdrop : withoutNewline (.text content) with
  | none =>
    simp only [step, hdrop, if_true]
    exact hkeep
  | some t =>
    simp only [step, hdrop, if_true, hb.dropsNewline, Bool.false_eq_true, if_false]

/-- A text is read up to the markup behind it. -/
theorem run_text {b : Builder} (hb : b.reading = .markup false) {content : List Char}
    (hne : content ≠ []) {page : List Char} (hpage : EndsText page) :
    b.run ((Node.text content).markup ++ page) = (b.step (.text content)).run page := by
  have hmarkup : (Node.text content).markup = content.flatMap textChar := rfl
  have hbracket := escape_textChar.bracket_not_mem content
  have hdecode := escape_textChar.decode_flatMap false content
  rw [hmarkup]
  cases htext : content.flatMap textChar with
  | nil =>
    rw [htext, Reference.decode_nil] at hdecode
    exact absurd hdecode.symm hne
  | cons c run =>
    rw [htext] at hbracket hdecode
    have hnext : Token.next b.reading c (run ++ page) = (some (.text content), page) := by
      rw [hb, Token.next_text hbracket hpage, hdecode]
    rw [List.cons_append, run_of_next hnext]

theorem withoutNewline_of_head? {content : List Char} (h : content.head? ≠ some '\n') :
    withoutNewline (.text content) = some (.text content) := by
  unfold withoutNewline
  split
  · next he =>
    obtain rfl := Token.text.inj he
    exact absurd rfl h
  · next he =>
    obtain rfl := Token.text.inj he
    exact absurd rfl h
  · rfl

theorem nodes_withoutNewline_of_head? {n : Node} {rest : List Node}
    (h : ∀ content, n = .text content → content.head? ≠ some '\n') :
    Node.withoutNewline (n :: rest) = n :: rest := by
  unfold Node.withoutNewline
  split
  · next he => exact absurd rfl (h _ (List.cons.inj he).1)
  · next he => exact absurd rfl (h _ (List.cons.inj he).1)
  · rfl

/-- A newline at the start of the first text is dropped. -/
theorem run_preformattedText {content : List Char} {ns : List Node} (hne : content ≠ [])
    (hnul : '\x00' ∉ content) (hb : b.Around names) {text page : List Char} (htext : EndsText text)
    (hrest : ∀ {b' : Builder}, b'.Around names → ∃ id, b'.nextId ≤ id ∧
      b'.run text = ((b'.add ns).withNext id).run page) :
    ∃ id, b.nextId ≤ id ∧
      ({ b with dropsNewline := true } : Builder).run ((Node.text content).markup ++ text) =
        ((b.add (Node.withoutNewline (.text content :: ns))).withNext id).run page := by
  have hreading : ({ b with dropsNewline := true } : Builder).reading = .markup false := hb.reading
  -- A text that is left is read as it is, and the nodes behind it follow.
  have hleft : ∀ left : List Char, left ≠ [] → '\x00' ∉ left → ∃ id, b.nextId ≤ id ∧
      (b.step (.text left)).run text = ((b.add (.text left :: ns)).withNext id).run page := by
    intro left hleft hleft'
    have hstep : b.step (.text left) = (b.add [.text left]).withNext b.nextId := by
      rw [hb.step_eq, hb.inBody_text hleft hleft']
      rfl
    rw [hstep]
    exact run_add (Nat.le_refl b.nextId) (hrest (hb.add [.text left] (Nat.le_refl _)))
  rw [run_text hreading hne htext, step_dropsNewline_of_text hb]
  by_cases hnewline : content.head? = some '\n'
  · obtain ⟨more, rfl⟩ := List.head?_eq_some_iff.1 hnewline
    cases more with
    | nil => exact hrest hb
    | cons c more =>
      exact hleft (c :: more) (List.cons_ne_nil c more) fun h => hnul (List.mem_cons_of_mem _ h)
  · rw [withoutNewline_of_head? hnewline, nodes_withoutNewline_of_head? fun content' he => by
      rwa [← Node.text.inj he]]
    exact hleft content hne hnul

/-- A newline at the start of preformatted text is dropped. -/
theorem run_preformatted {ns : List Node} (hns : ∀ n ∈ ns, n.Regular names)
    (hread : ∀ n ∈ ns, ReadsBack names n) (hseparate : Node.Separate ns) (hb : b.Around names)
    {page : List Char} (hpage : StartsMarkup page) :
    ∃ id, b.nextId ≤ id ∧
      ({ b with dropsNewline := true } : Builder).run (Node.markupsIn false ns ++ page) =
        ((b.add (Node.withoutNewline (Node.rereadAll ns))).withNext id).run page := by
  have hall := run_of_readsBack hns hread hseparate hb hpage.endsText
  cases ns with
  | nil => exact ⟨b.nextId, Nat.le_refl _, run_dropsNewline_of_startsMarkup hb hpage⟩
  | cons n rest =>
    have hmarkup : Node.markupsIn false (n :: rest) ++ page =
        n.markup ++ (Node.markupsIn false rest ++ page) := List.append_assoc ..
    obtain ⟨hn, hrest⟩ := List.forall_mem_cons.1 hns
    -- Before markup the newline does not matter.
    have hmarkupFirst : n.isText = false → Node.withoutNewline (Node.rereadAll (n :: rest)) =
          Node.rereadAll (n :: rest) →
        ∃ id, b.nextId ≤ id ∧ ({ b with dropsNewline := true } : Builder).run
            (Node.markupsIn false (n :: rest) ++ page) =
          ((b.add (Node.withoutNewline (Node.rereadAll (n :: rest)))).withNext id).run page := by
      intro hfirst hsame
      rw [hsame, hmarkup, run_dropsNewline_of_startsMarkup hb (hn.startsMarkup hfirst _), ← hmarkup]
      exact hall
    cases n with
    | comment content => exact hmarkupFirst rfl rfl
    | element tag children => exact hmarkupFirst rfl rfl
    | text content =>
      cases hn with
      | text hne hnul =>
        rw [hmarkup]
        exact run_preformattedText hne hnul hb
          (endsText_markups hrest (hseparate.noTextFirst rfl) hpage.endsText) fun hb' =>
            run_of_readsBack hrest (fun m hm => hread m (List.mem_cons_of_mem _ hm))
              hseparate.tail hb' hpage.endsText

/-- An element is opened, its content is read in it, and its end tag closes it. -/
theorem run_element {children ns : List Node} {names' : List String} {opening inside : Builder}
    (htag : tag.IsKept) (hvoid : voidNames.contains tag.name = false)
    (hplain : plainTextNames.contains tag.name = false) (hb : b.Around names)
    (hopens : b.openInBody tag.name tag.attributes false = opening)
    (hinside : inside.Around names') (hid : b.nextId ≤ inside.nextId)
    (hread : ∀ {page : List Char}, StartsMarkup page → ∃ id, inside.nextId ≤ id ∧
      opening.run (Node.markupsIn false children ++ page) =
        ((inside.add ns).withNext id).run page)
    (hcloses : ∀ id, ((inside.add ns).withNext id).closeInBody tag.name =
      (b.add [.element tag ns]).withNext id) (page : List Char) :
    ∃ id, b.nextId ≤ id ∧ b.run ((Node.element tag children).markup ++ page) =
      ((b.add [.element tag ns]).withNext id).run page := by
  have hmarkup : (Node.element tag children).markup =
      elementText tag.written (Node.markupsIn false children) := by
    refine markupIn_element tag children ?_ ?_
    · rw [Tag.isOneOf, hvoid, Bool.and_false]
    · rw [Tag.holdsPlainText, Tag.isOneOf, hplain, Bool.and_false]
  have happend := elementText_append tag.written (Node.markupsIn false children) [] page
  rw [List.append_nil, List.nil_append] at happend
  have hname : nameOf tag.written.name = tag.name := htag.lower
  obtain ⟨id, hle, hrun⟩ := hread (startsMarkup_closing htag.name page)
  have hin := hinside.add ns hle
  refine ⟨id, hid.trans hle, ?_⟩
  rw [hmarkup, happend, run_opening hb.reading htag.isPlain_written, hb.step_eq, inBody, hname,
    htag.readAttributes_written, show tag.written.selfClosing = false from rfl, hopens]
  rw [show tag.written.name = tag.name.toList from rfl, hrun, run_closing hin.reading htag.name,
    hin.step_eq, inBody, htag.lower, hcloses]

theorem preformatted_rule : ∀ name ∈ preformattedNames, nameRule? name = some .preformatted := by
  decide +kernel

/-- Only preformatted text loses a newline. -/
theorem reread_element {children : List Node} (htag : tag.IsKept) {rule : NameRule}
    (hrule : nameRule? tag.name = some rule) : (Node.element tag children).reread =
      .element tag (if rule = .preformatted then Node.withoutNewline (Node.rereadAll children)
        else Node.rereadAll children) := by
  have hpre : tag.isOneOf preformattedNames = true ↔ rule = .preformatted := by
    rw [Tag.isOneOf, htag.space, beq_self_eq_true, Bool.true_and, List.contains_iff_mem]
    constructor
    · intro h
      rw [preformatted_rule _ h] at hrule
      exact (Option.some.inj hrule).symm
    · rintro rfl
      exact nameRule?_cases hrule
  rw [Node.reread]
  simp only [hpre]

theorem isPage_frame (htag : tag.IsKept) (id : Nat) (home : Home) (children : List Node) :
    Frame.isPage tag.name ⟨tag, id, home, children⟩ = true := by
  simp [Frame.isPage, Tag.isPage, htag.space]

/-- **Regular content is read as it stands,** but for the newlines that are dropped. -/
theorem readsBack_of_regular {n : Node} (h : n.Regular names) : ReadsBack names n := by
  induction h with
  | @text names content hne hnul =>
    intro b hb page hpage
    refine ⟨b.nextId, Nat.le_refl _, ?_⟩
    rw [run_text hb.reading hne (hpage rfl), hb.step_eq, hb.inBody_text hne hnul]
    rfl
  | @comment names content h =>
    intro b hb page _
    refine ⟨b.nextId, Nat.le_refl _, ?_⟩
    rw [markup_comment_append, run_of_next (by rw [hb.reading]; exact Token.next_comment h page),
      hb.step_eq, inBody, hb.insertNode_eq]
    rfl
  | @plain names tag children htag hrule hseparate hchildren ih =>
    intro b hb page _
    have hname : IsPlainName tag.name := nameRule?_cases hrule
    have hinside := hb.opened htag.space hname.notParagraph
    rw [reread_element htag hrule, if_neg (by decide)]
    refine run_element htag hname.hasEndTag hname.holdsMarkup hb ?_ hinside (Nat.le_succ _)
      (fun hpage => run_of_readsBack hchildren ih hseparate hinside hpage.endsText) (fun id => ?_)
      page
    · rw [hname.opens _ hb.toInBody, hb.insert_eq, htag.eq_page]
    · have hcloses := hname.closes
        (b := ((b.opened tag).add (Node.rereadAll children)).withNext id)
        (stack_add_opened ..) (isPage_frame htag ..)
      rw [hcloses, pop_opened b tag hseparate.rereadAll]
  | @preformatted names tag children htag hrule hseparate hchildren ih =>
    intro b hb page _
    have hname : tag.name ∈ preformattedNames := nameRule?_cases hrule
    obtain ⟨-, -, -, hp, -, -, hvoid, hplain⟩ := preformatted_of_mem _ hname
    have hinside := hb.opened htag.space hp
    rw [reread_element htag hrule, if_pos rfl]
    refine run_element htag hvoid hplain hb ?_ hinside (Nat.le_succ _)
      (run_preformatted hchildren ih hseparate hinside) (fun id => ?_) page
    · rw [hb.openInBody_preformatted hname, htag.eq_page]
    · have hcloses := closeInBody_preformatted hname
        (b := ((b.opened tag).add (Node.withoutNewline (Node.rereadAll children))).withNext id)
        (stack_add_opened ..) (isPage_frame htag ..)
      rw [hcloses, pop_opened b tag hseparate.rereadAll.withoutNewline]
  | @formatting names tag children htag hrule hnot hseparate hchildren ih =>
    intro b hb page _
    have hname : tag.name ∈ "a" :: formatNames := nameRule?_cases hrule
    obtain ⟨-, -, -, hruled, hvoid, hplain⟩ := formatting_of_mem _ hname
    have hinside := hb.goesOn htag.space fun hp => hruled (hp ▸ List.mem_cons_self)
    rw [reread_element htag hrule, if_neg (by decide)]
    refine run_element htag hvoid hplain hb ?_ hinside (Nat.le_succ _)
      (fun hpage => run_of_readsBack hchildren ih hseparate hinside hpage.endsText) (fun id => ?_)
      page
    · rw [hb.openInBody_formatting hname hnot, htag.eq_page]
    · rw [closeInBody_formatting hname, hb.adopt_goesOn htag.space hseparate.rereadAll]
  | @empty names tag htag hrule =>
    intro b hb page _
    have hname : tag.name ∈ emptyNames := nameRule?_cases hrule
    obtain ⟨-, -, hvoid, -⟩ := empty_of_mem _ hname
    have hmarkup : (Node.element tag []).markup ++ page = '<' :: (tag.written.text ++ page) := by
      rw [Node.markup, Node.markupIn, Tag.closing, Tag.isOneOf, htag.space, hvoid, Tag.opening_eq]
      simp [Node.markupsIn]
    rw [reread_element htag hrule, if_neg (by decide)]
    refine ⟨b.nextId, Nat.le_refl _, ?_⟩
    rw [hmarkup, run_opening hb.reading htag.isPlain_written, hb.step_eq, inBody,
      htag.readAttributes_written, show nameOf tag.written.name = tag.name from htag.lower,
      show tag.written.selfClosing = false from rfl, hb.openInBody_empty hname, htag.eq_page]
    rfl

end Builder
end Html
end DocHighlighter
