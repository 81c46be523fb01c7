/-
# Modes and open elements

While a page is read, the open elements fit to how far it is (`Mode.Fits`).

| mode | open elements |
|---|---|
| at the start, before the root | none |
| in the head | one of the page itself, and the root further out |
| in a cell | a cell, and the root as the outermost |
| any other | the root as the outermost |

In an element that has nothing but text they fit to the mode that the page goes back to, if that
element is left out (`Builder.Fits`).

The rules of the body leave the ground of the open elements (`Builder.On`), and with it the root and
a cell.  So what is open still fits behind a token in the body (`Builder.InPage.inBody`), if the
token is not the end tag of a cell: the rules of cells do not let one through.
-/

import DocHighlighter.Proofs.Html.Ground

namespace DocHighlighter
namespace Html

/-! ## Modes and open elements -/

namespace Mode

/-- Whether the root is open for sure, whatever else is. -/
def isPage : Mode → Bool
  | initial | beforeRoot | inHead | inText => false
  | _ => true

/-- The open elements fit to a mode. -/
inductive Fits : Mode → Stack → Prop
  | start {m : Mode} (hm : m = initial ∨ m = beforeRoot) : Fits m []
  | head {f : Frame} {rest : Stack} (hspace : f.tag.space = .page) (hroot : rest.HasRoot) :
      Fits inHead (f :: rest)
  | page {m : Mode} {s : Stack} (hm : m.isPage = true) (hroot : s.HasRoot)
      (hcell : m = inCell → s.HasCell) : Fits m s

/-- Attributes and children do not count. -/
theorem Fits.of_shape {m : Mode} {s s' : Stack} (h : m.Fits s) (hshape : s.shape = s'.shape) :
    m.Fits s' := by
  cases h with
  | start hm =>
    obtain rfl := List.map_eq_nil_iff.1 hshape.symm
    exact .start hm
  | @head f rest hspace hroot =>
    obtain ⟨f', rest', rfl, hf, hrest⟩ := List.map_eq_cons_iff.1 hshape.symm
    refine .head ?_ (hroot.of_ground (Stack.ground_of_shape hrest.symm))
    exact (congrArg (fun a : Nat × Tag => a.2.space) hf).trans hspace
  | page hm hroot hcell =>
    have hground := Stack.ground_of_shape hshape
    exact .page hm (hroot.of_ground hground) fun h => (hcell h).of_ground hground

theorem Fits.of_isPage {m : Mode} {s : Stack} (h : m.Fits s) (hm : m.isPage = true) :
    s.HasRoot ∧ (m = inCell → s.HasCell) := by
  cases h with
  | start hstart => rcases hstart with rfl | rfl <;> cases hm
  | head => cases hm
  | page _ hroot hcell => exact ⟨hroot, hcell⟩

theorem Fits.exists_of_inHead {m : Mode} {s : Stack} (h : m.Fits s) (hm : m = inHead) :
    ∃ f rest, s = f :: rest ∧ f.tag.space = .page ∧ Stack.HasRoot rest := by
  cases h with
  | start hstart => rcases hstart with rfl | rfl <;> cases hm
  | head hspace hroot => exact ⟨_, _, rfl, hspace, hroot⟩
  | page hpage => rw [hm] at hpage; cases hpage

theorem Fits.isPage_of_space {m : Mode} {f : Frame} {rest : Stack} (h : m.Fits (f :: rest))
    (hf : f.tag.space ≠ .page) : m.isPage = true := by
  cases h with
  | head hspace => exact absurd hspace hf
  | page hm => exact hm

theorem Fits.ne_inText {m : Mode} {s : Stack} (h : m.Fits s) : m ≠ inText := by
  rintro rfl
  cases h with
  | start hstart => rcases hstart with hm | hm <;> cases hm
  | page hpage => cases hpage

theorem Fits.eq_nil {m : Mode} {s : Stack} (h : m.Fits s) (hm : m = initial ∨ m = beforeRoot) :
    s = [] := by
  cases h with
  | start => rfl
  | head => rcases hm with hm | hm <;> cases hm
  | page hpage => rcases hm with rfl | rfl <;> cases hpage

end Mode

namespace Builder

variable {b b' : Builder} {g : List (Nat × Tag)} {m : Mode} {tag : Tag} {t : Token}

/-- The open elements fit to how far the page is, outside of text. -/
structure FitsOutside (b : Builder) : Prop where
  apart : b.toOpen.Apart
  place : b.mode.Fits b.stack
  start : b.stack = [] → b.nextId = 0

/-- The open elements fit to how far the page is. -/
structure Fits (b : Builder) : Prop where
  apart : b.toOpen.Apart
  place : b.mode.Fits b.stack ∨ b.mode = .inText ∧ ∃ f rest, b.stack = f :: rest ∧
    f.tag.space = .page ∧ f.isGround = false ∧ rest ≠ [] ∧ b.resume.Fits rest
  start : b.stack = [] → b.nextId = 0

/-- The root is open, and in a cell a cell is. -/
structure InPage (b : Builder) : Prop extends Open.Rooted b.toOpen where
  mode : b.mode.isPage = true
  cell : b.mode = .inCell → b.stack.HasCell

/-- A page in a mode, on a ground. -/
structure On (g : List (Nat × Tag)) (m : Mode) (b : Builder) : Prop extends Open.On g b.toOpen where
  mode : b.mode = m

theorem FitsOutside.fits (h : b.FitsOutside) : b.Fits :=
  ⟨h.apart, .inl h.place, h.start⟩

theorem Fits.onShape (h : b.Fits) {f : Stack → Stack} (hf : (f b.stack).shape = b.stack.shape) :
    (b.onStack f).Fits := by
  obtain ⟨happart, hplace, hstart⟩ := h
  refine ⟨(happart.on.onStack (Stack.ground_of_shape hf)).toApart, ?_, fun hnil =>
    hstart (Stack.eq_nil_of_shape hf hnil)⟩
  rcases hplace with hplace | ⟨hmode, top, rest, hstack, hspace, htop, hne, hrest⟩
  · exact .inl (hplace.of_shape hf.symm)
  · obtain ⟨top', rest', hstack', htag, hshape⟩ :=
      List.map_eq_cons_iff.1 (hf.trans (congrArg Stack.shape hstack))
    refine .inr ⟨hmode, top', rest', hstack', ?_, ?_, ?_, hrest.of_shape hshape.symm⟩
    · exact (congrArg (fun a : Nat × Tag => a.2.space) htag).trans hspace
    · exact (congrArg (fun a : Nat × Tag => a.2.isGround) htag).trans htop
    · exact mt (Stack.eq_nil_of_shape hshape) hne

theorem InPage.stack_ne_nil (h : b.InPage) : b.stack ≠ [] :=
  h.root.ne_nil

theorem InPage.fitsOutside (h : b.InPage) : b.FitsOutside :=
  ⟨h.toApart, .page h.mode h.root h.cell, fun hnil => absurd hnil h.stack_ne_nil⟩

theorem InPage.fits (h : b.InPage) : b.Fits :=
  h.fitsOutside.fits

theorem FitsOutside.inPage (h : b.FitsOutside) (hm : b.mode.isPage = true) : b.InPage :=
  ⟨⟨h.apart, (h.place.of_isPage hm).1⟩, hm, (h.place.of_isPage hm).2⟩

theorem InPage.on (h : b.InPage) : b.On b.stack.ground b.mode :=
  ⟨h.toApart.on, rfl⟩

/-- What happens on the same ground leaves the root and the cell. -/
theorem InPage.of_on (h : b.InPage) (h' : b'.On b.stack.ground b.mode) : b'.InPage where
  toApart := h'.toApart
  root := h.root.of_ground h'.ground.symm
  mode := h'.mode.symm ▸ h.mode
  cell hcell := (h.cell (h'.mode.symm.trans hcell)).of_ground h'.ground.symm

/-- A mode in which no cell has to be open. -/
theorem inPage_of_rooted (h : b.toOpen.Rooted) (hm : m.isPage = true) (hcell : m ≠ .inCell) :
    ({ b with mode := m } : Builder).InPage :=
  ⟨h, hm, fun h => absurd h hcell⟩

/-- More attributes do not change the shape. -/
theorem shape_modify (s : Stack) (i : Nat) (attributes : List Attribute) :
    Stack.shape (s.modify i fun f =>
      let known := f.tag.attributes
      let new := attributes.filter fun a => !known.any (·.name == a.name)
      { f with tag := { f.tag with attributes := known ++ new } }) = s.shape := by
  refine List.ext_getElem (by simp [Stack.shape]) fun n _ _ => ?_
  simp only [Stack.shape, List.getElem_map, List.getElem_modify]
  split <;> rfl

/-! ## On one ground -/

namespace On

theorem onOpen (h : b.On g m) {f : Open → Open} (hf : ∀ {o : Open}, o.On g → (f o).On g) :
    (b.onOpen f).On g m :=
  ⟨hf h.toOn, h.mode⟩

theorem onStack (h : b.On g m) {f : Stack → Stack} (hf : (f b.stack).ground = b.stack.ground) :
    (b.onStack f).On g m :=
  ⟨h.toOn.onStack hf, h.mode⟩

theorem ite {c : Prop} [Decidable c] (h : b.On g m) (h' : b'.On g m) :
    (if c then b else b').On g m := by
  split
  · exact h
  · exact h'

theorem insert (h : b.On g m) (htag : tag.isGround = false) : (b.insert tag).On g m :=
  h.onOpen fun ho => ho.push htag _

theorem insertNode (h : b.On g m) (n : Node) : (b.insertNode n).On g m :=
  h.onStack (Stack.ground_of_shape (Stack.shape_attach n _ _))

theorem insertText (h : b.On g m) (content : List Char) : (b.insertText content).On g m :=
  .ite h (h.insertNode _)

theorem restart (h : b.On g m) : b.restart.On g m :=
  h.onOpen fun ho => ho.restart _

/-- Closing up to what is open within bounds that stop at the ground. -/
theorem closeWithin (h : b.On g m) {stops target : Frame → Bool}
    (hstops : ∀ f : Frame, f.isGround = true → stops f = true)
    (htarget : ∀ f : Frame, target f = true → f.isGround = false) :
    (b.closeWithin stops target).On g m := by
  unfold Builder.closeWithin
  split
  · next hopen => exact h.onStack (Stack.ground_popThrough hstops htarget hopen)
  · exact h

theorem addAttributes (h : b.On g m) (level : Nat) (attributes : List Attribute) :
    (b.addAttributes level attributes).On g m :=
  h.onStack (Stack.ground_of_shape (shape_modify _ _ attributes))

theorem closeParagraph (h : b.On g m) : b.closeParagraph.On g m :=
  h.closeWithin (fun f hf => by rw [Frame.boundsParagraph, f.bounds_of_isGround hf, Bool.true_or])
    fun _ => Tag.isGround_of_isPage_other (by decide)

theorem closeNamed (h : b.On g m) (name : String) (hname : name ∉ groundNames) :
    (b.closeWithin Frame.bounds (·.isPage name)).On g m :=
  h.closeWithin Frame.bounds_of_isGround fun _ => Tag.isGround_of_isPage_other hname

theorem closeItem (h : b.On g m) {names : List String} (hnames : ∀ n ∈ names, n ∉ groundNames) :
    (b.onStack (closeItem names)).On g m := by
  refine h.onStack ?_
  unfold Builder.closeItem
  split
  · rfl
  · next f hfind =>
    split
    · next hf =>
      refine Stack.ground_popThrough_find? (fun f hground => ?_)
        (Tag.isGround_eq_false hnames hf) hfind
      have hother : f.isOneOf ["address", "div", "p"] = false := by
        refine Bool.eq_false_iff.2 fun hother => ?_
        rw [show f.isGround = false from Tag.isGround_eq_false (by decide) hother] at hground
        cases hground
      rw [f.isSpecial_of_isGround hground, hother, Bool.not_false, Bool.true_and, Bool.or_true]
    · rfl

theorem insertFormat (h : b.On g m) (htag : tag.isGround = false) : (b.insertFormat tag).On g m :=
  h.onOpen fun ho => ho.pushFormat htag _

theorem adopt (h : b.On g m) (name : String) (hname : name ∉ groundNames) :
    (b.adopt name).On g m :=
  h.onOpen fun ho => ho.adopt _ hname

theorem forgetOpen (h : b.On g m) (name : String) : (b.onOpen (forgetOpen name)).On g m := by
  refine h.onOpen fun ho => ?_
  unfold Builder.forgetOpen
  split
  · exact ho.forget _
  · exact ho

theorem popIf (h : b.On g m) {p : Frame → Bool}
    (hp : ∀ f : Frame, p f = true → f.isGround = false) :
    (match b.stack with
      | f :: _ => if p f then b.onStack Stack.pop else b
      | [] => b).On g m := by
  split
  · next f rest hstack =>
    split
    · next hpf =>
      refine h.onStack (Stack.ground_popMany (n := 1) ?_)
      rw [hstack]
      exact List.forall_mem_singleton.2 (hp f hpf)
    · exact h
  · exact h

end On

/-! ## Outside of text -/

namespace FitsOutside

theorem onShape (h : b.FitsOutside) {f : Stack → Stack} (hf : (f b.stack).shape = b.stack.shape) :
    (b.onStack f).FitsOutside :=
  ⟨(h.apart.on.onStack (Stack.ground_of_shape hf)).toApart, h.place.of_shape hf.symm,
    fun hnil => h.start (Stack.eq_nil_of_shape hf hnil)⟩

theorem insertNode (h : b.FitsOutside) (n : Node) : (b.insertNode n).FitsOutside :=
  h.onShape (Stack.shape_attach n _ _)

theorem insertText (h : b.FitsOutside) (content : List Char) :
    (b.insertText content).FitsOutside := by
  unfold Builder.insertText
  split
  · exact h
  · exact h.insertNode _

theorem addAttributes (h : b.FitsOutside) (level : Nat) (attributes : List Attribute) :
    (b.addAttributes level attributes).FitsOutside :=
  h.onShape (shape_modify _ _ attributes)

/-- An element that has nothing but text is put on what fits to the mode to go back to. -/
theorem insertTextElement (h : b.FitsOutside) (hne : b.stack ≠ []) (hspace : tag.space = .page)
    (htag : tag.isGround = false) (reading : Reading) : (b.insertTextElement tag reading).Fits :=
  ⟨h.apart.push tag _, .inr ⟨rfl, _, b.stack, rfl, hspace, htag, hne, h.place⟩,
    fun hnil => absurd hnil (List.cons_ne_nil _ _)⟩

theorem headElement? (h : b.FitsOutside) (hne : b.stack ≠ []) (hspace : tag.space = .page)
    (hb : b.headElement? tag = some b') : b'.Fits := by
  unfold Builder.headElement? at hb
  split at hb
  · obtain rfl := Option.some.inj hb
    exact (h.insertNode _).fits
  · split at hb
    · next htitle =>
      obtain rfl := Option.some.inj hb
      have hname : "title" ∉ groundNames := by decide
      refine h.insertTextElement hne hspace (Tag.isGround_of_isPage_other hname ?_) _
      rw [Tag.isPage, hspace, htitle]
      rfl
    · split at hb
      · next hnames =>
        obtain rfl := Option.some.inj hb
        have htext : ∀ name ∈ ["style", "script", "noframes"], name ∉ groundNames := by decide
        refine h.insertTextElement hne hspace (Tag.isGround_eq_false htext ?_) _
        rw [Tag.isOneOf, hspace, hnames]
        rfl
      · cases hb

end FitsOutside

/-! ## In the body -/

theorem not_mem_groundNames {name : String} (hroot : openingRule name ≠ .root)
    (hignored : openingRule name ≠ .ignored) : name ∉ groundNames := by
  intro h
  rcases eq_of_mem_groundNames h with rfl | rfl | rfl
  · exact hroot (by decide)
  · exact hignored (by decide)
  · exact hignored (by decide)

/-- What a kind of start tags names is no cell and no root. -/
def OpeningRule.IsInside : OpeningRule → Prop
  | item names => ∀ n ∈ names, n ∉ groundNames
  | foreign space => space ≠ .page
  | _ => True

theorem OpeningRule.IsInside.ite {c : Prop} [Decidable c] {r r' : OpeningRule} (h : r.IsInside)
    (h' : r'.IsInside) : (if c then r else r').IsInside := by
  split
  · exact h
  · exact h'

theorem isInside_openingRule (name : String) : (openingRule name).IsInside := by
  have hitem : ∀ n ∈ ["li"], n ∉ groundNames := by decide
  have hitem' : ∀ n ∈ ["dd", "dt"], n ∉ groundNames := by decide
  have hdrawing : Space.drawing ≠ .page := by decide
  have hformula : Space.formula ≠ .page := by decide
  unfold openingRule
  repeat' apply OpeningRule.IsInside.ite
  all_goals first | exact trivial | assumption

theorem space_foreign (space : Space) (name : String) (attributes : List Attribute) :
    (Foreign.tag space name attributes).space = space := by
  cases space <;> rfl

namespace InPage

theorem withMode (h : b.InPage) (m : Mode) (hm : m.isPage = true) (hcell : m ≠ .inCell) :
    ({ b with mode := m } : Builder).InPage :=
  inPage_of_rooted h.toRooted hm hcell

theorem openInBody (h : b.InPage) (name : String) (attributes : List Attribute)
    (selfClosing : Bool) : (b.openInBody name attributes selfClosing).Fits := by
  unfold Builder.openInBody
  dsimp only
  split
  · next hhead => exact h.fitsOutside.headElement? h.stack_ne_nil rfl hhead
  · by_cases hroot : openingRule name = .root
    · rw [hroot]
      exact (h.of_on (h.on.addAttributes 0 attributes)).fits
    by_cases hignored : openingRule name = .ignored
    · rw [hignored]
      exact h.fits
    have htag := Tag.isGround_of_name (not_mem_groundNames hroot hignored) attributes .page
    have hon := h.on
    have hinside := isInside_openingRule name
    cases hrule : openingRule name with
    | root => exact absurd hrule hroot
    | ignored => exact absurd hrule hignored
    | body => exact (h.of_on (hon.addAttributes 1 attributes)).fits
    | block => exact (h.of_on (hon.closeParagraph.insert htag)).fits
    | heading =>
      have hheading : ∀ f : Frame, f.isHeading = true → f.isGround = false :=
        fun _ => Tag.isGround_eq_false (by decide)
      exact (h.of_on ((hon.closeParagraph.popIf hheading).insert htag)).fits
    | preformatted =>
      have hpre := h.of_on (hon.closeParagraph.insert htag)
      exact InPage.fits ⟨hpre.toRooted, hpre.mode, hpre.cell⟩
    | form =>
      dsimp only
      split
      · exact h.fits
      · exact (h.of_on (hon.closeParagraph.insert htag)).fits
    | item names =>
      rw [hrule] at hinside
      exact (h.of_on ((hon.closeItem hinside).closeParagraph.insert htag)).fits
    | plain =>
      have hplain := h.of_on (hon.closeParagraph.insert htag)
      exact InPage.fits ⟨hplain.toRooted, hplain.mode, hplain.cell⟩
    | button =>
      exact (h.of_on ((hon.closeNamed "button" (by decide)).restart.insert htag)).fits
    | anchor =>
      refine (h.of_on (On.insertFormat (On.restart (.ite ?_ hon)) htag)).fits
      exact (hon.adopt "a" (by decide)).forgetOpen "a"
    | format => exact (h.of_on (hon.restart.insertFormat htag)).fits
    | noBreak =>
      refine (h.of_on (On.insertFormat (.ite ?_ hon.restart) htag)).fits
      exact (hon.restart.adopt "nobr" (by decide)).restart
    | bounded => exact (h.of_on ((hon.restart.insert htag).onOpen fun ho => ho.mark)).fits
    | table =>
      refine (InPage.withMode (h.of_on (On.insert ?_ htag)) .inTable rfl (by decide)).fits
      exact .ite hon hon.closeParagraph
    | empty => exact (h.of_on (hon.restart.insertNode _)).fits
    | emptyInfo => exact (h.of_on (hon.insertNode _)).fits
    | line => exact (h.of_on (hon.closeParagraph.insertNode _)).fits
    | image => exact (h.of_on (hon.restart.insertNode _)).fits
    | textArea =>
      have harea := h.fitsOutside.insertTextElement h.stack_ne_nil rfl htag
        (.references name.toList)
      exact ⟨harea.apart, harea.place, harea.start⟩
    | verbatim =>
      have hclosed := h.of_on hon.closeParagraph.restart
      exact hclosed.fitsOutside.insertTextElement hclosed.stack_ne_nil rfl htag _
    | frame => exact h.fitsOutside.insertTextElement h.stack_ne_nil rfl htag _
    | choice =>
      have hoption : ∀ f : Frame, f.isPage "option" = true → f.isGround = false :=
        fun _ => Tag.isGround_of_isPage_other (by decide)
      exact (h.of_on ((hon.popIf hoption).restart.insert htag)).fits
    | foreign space =>
      rw [hrule] at hinside
      have hforeign : (Foreign.tag space name attributes).isGround = false :=
        Tag.isGround_of_space ((space_foreign space name attributes).symm ▸ hinside)
      dsimp only
      split
      · exact (h.of_on (hon.restart.insertNode _)).fits
      · exact (h.of_on (hon.restart.insert hforeign)).fits
    | ordinary => exact (h.of_on (hon.restart.insert htag)).fits

theorem ite {c : Prop} [Decidable c] (hpos : c → b.InPage) (hneg : ¬c → b'.InPage) :
    (if c then b else b').InPage :=
  iteInduction hpos hneg

/-- An end tag in the body closes no root, and no cell where one has to be open. -/
theorem closeInBody (h : b.InPage) (name : String)
    (hname : b.mode = .inCell → name ∉ groundNames) : (b.closeInBody name).InPage := by
  have hon := h.on
  unfold Builder.closeInBody
  refine .ite (fun _ => .ite (fun _ => ?_) fun _ => h) fun hroot => ?_
  · -- the body or the root
    exact h.withMode _ (by split <;> rfl) (by split <;> decide)
  refine .ite (fun hclosed => ?_) fun _ => ?_
  · have hnames : ∀ name ∈ closedNames, name ∉ groundNames := by decide
    exact h.of_on (hon.closeNamed name (hnames name (List.contains_iff_mem.1 hclosed)))
  refine .ite (fun _ => ?_) fun _ => ?_
  · -- a paragraph
    refine h.of_on (On.closeParagraph (.ite hon (hon.insert ?_)))
    exact Tag.isGround_of_name (by decide) [] .page
  refine .ite (fun _ => ?_) fun _ => .ite (fun hitem => ?_) fun _ => ?_
  · refine h.of_on (hon.closeWithin (fun f hf => ?_) fun _ =>
      Tag.isGround_of_isPage_other (by decide))
    rw [Frame.boundsItem, f.bounds_of_isGround hf, Bool.true_or]
  · refine h.of_on (hon.closeNamed name ?_)
    rw [Bool.or_eq_true, beq_iff_eq, beq_iff_eq] at hitem
    rcases hitem with rfl | rfl <;> decide
  refine .ite (fun _ => ?_) fun _ => .ite (fun hformat => ?_) fun _ => ?_
  · exact h.of_on (hon.closeWithin Frame.bounds_of_isGround fun _ =>
      Tag.isGround_eq_false (by decide))
  · refine h.of_on (hon.adopt name ?_)
    have hnames : ∀ name ∈ "a" :: "nobr" :: formatNames, name ∉ groundNames := by decide
    refine hnames name ?_
    rwa [← List.contains_iff_mem, List.contains_cons, List.contains_cons, ← Bool.or_assoc]
  refine .ite (fun hbounded => .ite (fun hopen => ?_) fun _ => h) fun _ => ?_
  · -- an element that bounds formatting
    have hnames : ∀ name ∈ ["applet", "marquee", "object"], name ∉ groundNames := by decide
    refine h.of_on (On.onOpen (hon.onStack ?_) fun ho => ho.unmark)
    exact Stack.ground_popThrough Frame.bounds_of_isGround (fun _ =>
      Tag.isGround_of_isPage_other (hnames name (List.contains_iff_mem.1 hbounded))) hopen
  refine .ite (fun _ => h.of_on (hon.restart.insertNode _)) fun _ => ?_
  by_cases hground : name ∈ groundNames
  · have hhtml : name ≠ "html" := by
      rintro rfl
      exact hroot rfl
    exact ⟨h.toRooted.close hhtml, h.mode, fun hcell => absurd hground (hname hcell)⟩
  · exact h.of_on (hon.onOpen fun ho => ho.close hground)

/-- The rules of the body keep what is open fitting. -/
theorem inBody (h : b.InPage)
    (ht : ∀ name, t = .closing name → b.mode = .inCell → name ∉ groundNames) :
    (b.inBody t).Fits := by
  cases t with
  | doctype d => exact h.fits
  | comment content => exact (h.of_on (h.on.insertNode _)).fits
  | text content =>
    simp only [Builder.inBody]
    split
    · exact h.fits
    · exact (h.of_on (h.on.restart.insertText _)).fits
  | opening name attributes selfClosing => exact h.openInBody name attributes selfClosing
  | closing name => exact (h.closeInBody name (ht name rfl)).fits

theorem inBody_of_mode_ne (h : b.InPage) (hmode : b.mode ≠ .inCell) (t : Token) :
    (b.inBody t).Fits :=
  h.inBody fun _ _ hcell => absurd hcell hmode

/-- A page that goes back to its body. -/
theorem inBody_again (h : b.InPage) (t : Token) :
    (({ b with mode := .inBody } : Builder).inBody t).Fits :=
  (h.withMode .inBody rfl (by decide)).inBody_of_mode_ne (by simp) t

end InPage

end Builder
end Html
end DocHighlighter
