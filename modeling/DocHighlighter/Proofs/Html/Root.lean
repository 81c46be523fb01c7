/-
# The root of a parsed page

The root of every parsed page is an element named `html` (`Page.exists_root_read`).

What is open fits to the mode of the page (`Builder.Fits`), and so the root stays open: the rules of
tables close no more than they have found, which is never the root, the head is only closed where it
is open, and the rules of the body leave the ground.  A step keeps what is open fitting, and so does
the whole run.
-/

import DocHighlighter.Proofs.Html.Fitting
import DocHighlighter.Proofs.Html.Sound

namespace DocHighlighter
namespace Html
namespace Builder

variable {b b' : Builder} {tag : Tag} {m : Mode} {t : Token}

/-! ## Where the root stays open -/

theorem isPage_modeFor (s : Stack) : (modeFor s).isPage = true := by
  induction s with
  | nil => rfl
  | cons f rest ih =>
    unfold modeFor
    split_ifs <;> first | rfl | exact ih

/-- The mode of a cell is only called for if one is open. -/
theorem hasCell_of_modeFor (s : Stack) (h : modeFor s = .inCell) : s.HasCell := by
  induction s with
  | nil => cases h
  | cons f rest ih =>
    by_cases hcell : f.isOneOf ["td", "th"] = true
    · exact ⟨f, List.mem_cons_self, hcell⟩
    · rw [modeFor, if_neg hcell] at h
      split_ifs at h
      obtain ⟨g, hg, hcell⟩ := ih h
      exact ⟨g, List.mem_cons_of_mem _ hg, hcell⟩

theorem clearTo_rooted (h : b.toOpen.Rooted) (names : List String) :
    (b.clearTo names).toOpen.Rooted := by
  refine h.popWhile fun f hf => ?_
  have hroot : f.isOneOf ("html" :: names) = true :=
    Tag.isOneOf_mono (by simp) ((Tag.isOneOf_singleton f.tag "html").trans hf)
  rw [hroot, Bool.not_true]

/-- Elements of other names than the root's are not the root. -/
theorem isPage_eq_false {f : Frame} {names : List String} (hnames : "html" ∉ names)
    (h : f.isOneOf names = true) : f.isPage "html" = false := by
  simp only [Frame.isOneOf, Tag.isOneOf, Bool.and_eq_true, List.contains_iff_mem] at h
  have hname : f.tag.name ≠ "html" := fun heq => hnames (heq ▸ h.2)
  simp [Frame.isPage, Tag.isPage, hname]

/-! ## In tables -/

theorem inPage_openCell (h : b.toOpen.Rooted) (htag : tag.isOneOf ["td", "th"] = true) :
    (b.openCell tag).InPage :=
  ⟨((clearTo_rooted h _).push tag _).mark, rfl, fun _ => ⟨_, List.mem_cons_self, htag⟩⟩

theorem inPage_openRow (h : b.toOpen.Rooted) {name : String}
    (hname : ["tr", "td", "th"].contains name = true) (attributes : List Attribute) :
    (b.openRow ⟨name, attributes, .page⟩).InPage := by
  have hclear := clearTo_rooted h ["tbody", "tfoot", "thead"]
  unfold Builder.openRow
  dsimp only
  split
  · exact inPage_of_rooted (hclear.push _ _) rfl (by decide)
  · next hrow =>
    refine inPage_openCell (hclear.push _ _) ?_
    rw [List.contains_cons, Bool.or_eq_true] at hname
    exact hname.resolve_left hrow

theorem inPage_openPart (h : b.toOpen.Rooted) {name : String}
    (hname : partNames.contains name = true) (attributes : List Attribute) :
    (b.openPart ⟨name, attributes, .page⟩).InPage := by
  have hclear := clearTo_rooted h ["table"]
  unfold Builder.openPart
  dsimp only
  split_ifs with hcaption hgroup hcol hbody
  · exact inPage_of_rooted (hclear.mark.push _ _) rfl (by decide)
  · exact inPage_of_rooted (hclear.push _ _) rfl (by decide)
  · have hinsert : ((b.clearTo ["table"]).insert ⟨"colgroup", [], .page⟩).toOpen.Rooted :=
      hclear.push _ _
    have hcolumns := inPage_of_rooted (m := .inColumns) hinsert rfl (by decide)
    exact hcolumns.of_on (hcolumns.on.insertNode _)
  · exact inPage_of_rooted (hclear.push _ _) rfl (by decide)
  · refine inPage_openRow (hclear.push ⟨"tbody", [], .page⟩ _) ?_ attributes
    simp [partNames] at hname hcaption hgroup hcol hbody ⊢
    tauto

namespace InPage

theorem closeTable (h : b.InPage) : b.closeTable.InPage := by
  unfold Builder.closeTable
  split
  · next hopen =>
    obtain ⟨f, hf, htable⟩ := Stack.exists_of_isOpenWithin hopen
    have hclosed := h.toRooted.popThrough hf htable (isPage_eq_false (by decide)
      ((Tag.isOneOf_singleton f.tag "table").trans htable))
    exact ⟨hclosed, isPage_modeFor _, hasCell_of_modeFor _⟩
  · exact h

theorem besideTable (h : b.InPage)
    (ht : ∀ name, t = .closing name → name ∉ groundNames) : (b.besideTable t).Fits := by
  have hinside : ({ b with outsideTable := true } : Builder).InPage :=
    ⟨h.toRooted, h.mode, h.cell⟩
  have hbody := hinside.inBody fun name hname _ => ht name hname
  exact ⟨hbody.apart, hbody.place, hbody.start⟩

theorem inTable (h : b.InPage) (t : Token) : (b.inTable t).Fits := by
  cases t with
  | doctype d => exact h.fits
  | comment content => exact (h.of_on (h.on.insertNode _)).fits
  | text content =>
    simp only [Builder.inTable]
    split_ifs
    · exact (h.of_on (h.on.insertText _)).fits
    · exact h.besideTable (by simp)
  | opening name attributes selfClosing =>
    simp only [Builder.inTable]
    split_ifs with hpart
    · exact (inPage_openPart h.toRooted hpart attributes).fits
    · exact h.closeTable.openInBody name attributes selfClosing
    · exact h.fits
    · cases hhead : b.headElement? ⟨name, attributes, .page⟩ with
      | none => exact h.fits
      | some b' => exact h.fitsOutside.headElement? h.stack_ne_nil rfl hhead
    · exact (h.of_on (h.on.insertNode _)).fits
    · exact h.besideTable (by simp)
  | closing name =>
    simp only [Builder.inTable]
    split_ifs with htable hpart
    · exact h.closeTable.fits
    · exact h.fits
    · refine h.besideTable fun name' hname' hground => hpart ?_
      obtain rfl := Token.closing.inj hname'
      rcases eq_of_mem_groundNames hground with rfl | rfl | rfl <;> decide

/-- A part of a table that is open is closed. -/
theorem closePart (h : b.InPage) {names names' : List String} (hnames : "html" ∉ names)
    (hsub : names' ⊆ names) (hopen : b.isPartOpen names' = true) (m : Mode)
    (hm : m.isPage = true) (hcell : m ≠ .inCell) : (b.closePart names m).InPage := by
  obtain ⟨f, hf, hpart'⟩ := Stack.exists_of_isOpenWithin hopen
  have hpart : f.isOneOf names = true := Tag.isOneOf_mono hsub hpart'
  refine inPage_of_rooted ?_ hm hcell
  have hclosed := h.toRooted.popThrough (p := (·.isOneOf ("html" :: names))) hf
    (Tag.isOneOf_mono (List.subset_cons_self ..) hpart) (isPage_eq_false hnames hpart)
  rw [Stack.popThrough, ← Stack.pop_popMany] at hclosed
  exact hclosed

theorem inTableBody (h : b.InPage) (t : Token) : (b.inTableBody t).Fits := by
  unfold Builder.inTableBody
  dsimp only
  split
  · next name attributes selfClosing =>
    split_ifs with hrow _ hopen
    · exact (inPage_openRow h.toRooted hrow attributes).fits
    · exact (h.closePart (by decide) (List.Subset.refl _) hopen .inTable rfl (by decide)).inTable _
    · exact h.fits
    · exact h.inTable _
  · next name =>
    split_ifs with hgroup hopen _ hopen
    · have hname : [name] ⊆ ["tbody", "tfoot", "thead"] :=
        List.cons_subset.2 ⟨List.contains_iff_mem.1 hgroup, List.nil_subset _⟩
      exact (h.closePart (by decide) hname hopen .inTable rfl (by decide)).fits
    · exact h.fits
    · exact (h.closePart (by decide) (List.Subset.refl _) hopen .inTable rfl (by decide)).inTable _
    · exact h.fits
    · exact h.fits
    · exact h.inTable _
  · exact h.inTable _

theorem inRow (h : b.InPage) (t : Token) : (b.inRow t).Fits := by
  have hclosed := fun hopen : b.isPartOpen ["tr"] = true =>
    h.closePart (by decide) (List.Subset.refl _) hopen .inTableBody rfl (by decide)
  unfold Builder.inRow
  split
  · next name attributes selfClosing =>
    split_ifs with hcell _ hopen
    · refine (inPage_openCell h.toRooted ?_).fits
      simpa [Tag.isOneOf] using hcell
    · exact (hclosed hopen).inTableBody _
    · exact h.fits
    · exact h.inTable _
  · split_ifs with _ hopen _ hopen
    · exact (hclosed hopen).fits
    · exact h.fits
    · exact (hclosed (Bool.and_eq_true_iff.1 hopen).2).inTableBody _
    · exact h.fits
    · exact h.fits
    · exact h.inTable _
  · exact h.inTable _

/-- An element that is open and not the root is closed, with the formatting in it. -/
theorem closeMarked (h : b.InPage) {p : Frame → Bool} {f : Frame} (hf : f ∈ b.stack)
    (hp : p f = true) (hpage : f.isPage "html" = false) (m : Mode) (hm : m.isPage = true)
    (hcell : m ≠ .inCell) :
    ({ (b.onStack (·.popThrough p)).onOpen Open.unmark with mode := m } : Builder).InPage :=
  inPage_of_rooted (h.toRooted.popThrough hf hp hpage).unmark hm hcell

theorem inCell (h : b.InPage) (hmode : b.mode = .inCell) (t : Token) : (b.inCell t).Fits := by
  obtain ⟨f, hf, hcell⟩ := h.cell hmode
  have hclosed : b.closeCell.InPage :=
    h.closeMarked hf hcell (isPage_eq_false (by decide) hcell) .inRow rfl (by decide)
  unfold Builder.inCell
  dsimp only
  split
  · split_ifs
    · exact hclosed.inRow _
    · exact h.fits
    · exact h.inBody (by simp)
  · next name =>
    split_ifs with hname hopen hother
    · obtain ⟨f, hf, hcell⟩ := Stack.exists_of_isOpenWithin hopen
      have hroot : "html" ∉ [name] := by
        rintro hmem
        rw [← List.mem_singleton.1 hmem] at hname
        exact absurd hname (by decide)
      have hpage : f.isPage name = true := (Tag.isOneOf_singleton f.tag name).symm.trans hcell
      exact (h.closeMarked hf hpage (isPage_eq_false hroot hcell) .inRow rfl (by decide)).fits
    · exact h.fits
    · exact h.fits
    · exact hclosed.inRow _
    · exact h.fits
    · refine h.inBody fun name' hname' _ hground => ?_
      obtain rfl := Token.closing.inj hname'
      rcases eq_of_mem_groundNames hground with rfl | rfl | rfl
      · exact hother (by decide)
      · exact hname (by decide)
      · exact hname (by decide)
  · next hclosing => exact h.inBody fun name hname => absurd hname (hclosing name)

/-- An end tag that is neither for the root nor for a part of a table is for no cell. -/
theorem not_mem_groundNames_of_not_part {name : String}
    (h : ¬ (partNames.contains name || name == "body" || name == "html") = true) :
    name ∉ groundNames := by
  intro hground
  rcases eq_of_mem_groundNames hground with rfl | rfl | rfl <;> exact h (by decide)

theorem inCaption (h : b.InPage) (t : Token) : (b.inCaption t).Fits := by
  have hclosed : b.isPartOpen ["caption"] = true → InPage
      { (b.onStack (·.popThrough (·.isPage "caption"))).onOpen Open.unmark with
        mode := .inTable } := by
    intro hopen
    obtain ⟨f, hf, hcaption⟩ := Stack.exists_of_isOpenWithin hopen
    have hpage : f.isPage "caption" = true :=
      (Tag.isOneOf_singleton f.tag "caption").symm.trans hcaption
    exact h.closeMarked hf hpage (isPage_eq_false (by decide) hcaption) .inTable rfl (by decide)
  unfold Builder.inCaption
  dsimp only
  split
  · split_ifs with _ hopen
    · exact (hclosed hopen).inTable _
    · exact h.fits
    · exact h.inBody (by simp)
  · split_ifs with _ hopen _ hopen hpart
    · exact (hclosed hopen).fits
    · exact h.fits
    · exact (hclosed hopen).inTable _
    · exact h.fits
    · exact h.fits
    · refine h.inBody fun name' hname' _ => ?_
      obtain rfl := Token.closing.inj hname'
      exact not_mem_groundNames_of_not_part hpart
  · next hclosing => exact h.inBody fun name hname => absurd hname (hclosing name)

theorem closeColumns (h : b.InPage) (hb : b.closeColumns = some b') : b'.InPage := by
  unfold Builder.closeColumns at hb
  split at hb
  · next f rest hstack =>
    split at hb
    · next hcolumns =>
      obtain rfl := Option.some.inj hb
      have hpage : f.isPage "html" = false :=
        isPage_eq_false (by decide) ((Tag.isOneOf_singleton f.tag "colgroup").trans hcolumns)
      exact inPage_of_rooted (h.toRooted.pop hstack hpage) rfl (by decide)
    · cases hb
  · cases hb

/-- A token that ends the columns of a table counts in the table. -/
theorem afterColumns (h : b.InPage) (t : Token) :
    (match b.closeColumns with
      | some b => b.inTable t
      | none => b).Fits := by
  split
  · next hb => exact (h.closeColumns hb).inTable t
  · exact h.fits

theorem inColumns (h : b.InPage) (t : Token) : (b.inColumns t).Fits := by
  cases t with
  | doctype d => exact h.fits
  | comment content => exact (h.of_on (h.on.insertNode _)).fits
  | text content =>
    have hblanks := h.of_on (h.on.insertText (content.takeWhile Text.isMarkupBlank))
    simp only [Builder.inColumns]
    split
    · exact hblanks.fits
    · exact hblanks.afterColumns _
  | opening name attributes selfClosing =>
    simp only [Builder.inColumns]
    split
    · exact (h.of_on (h.on.insertNode _)).fits
    · exact h.afterColumns _
  | closing name =>
    simp only [Builder.inColumns]
    split_ifs
    · cases hclosed : b.closeColumns with
      | none => exact h.fits
      | some b' => exact (h.closeColumns hclosed).fits
    · exact h.fits
    · exact h.afterColumns _

/-! ## Around the body -/

theorem openBody (h : b.toOpen.Rooted) (attributes : List Attribute) :
    (b.openBody attributes).InPage :=
  inPage_of_rooted (h.push _ _) rfl (by decide)

theorem afterHead (h : b.InPage) (t : Token) : (b.afterHead t).Fits := by
  have hbody : ∀ {b : Builder}, b.InPage → ∀ t, ((b.openBody []).inBody t).Fits :=
    fun hb => (openBody hb.toRooted []).inBody_of_mode_ne (by simp [Builder.openBody])
  cases t with
  | doctype d => exact h.fits
  | comment content => exact (h.of_on (h.on.insertNode _)).fits
  | text content =>
    simp only [Builder.afterHead, Builder.splitBlanks]
    have hblanks := h.of_on (h.on.insertText (content.takeWhile Text.isMarkupBlank))
    split
    · exact hblanks.fits
    · exact hbody hblanks _
  | opening name attributes selfClosing =>
    simp only [Builder.afterHead]
    split_ifs
    · exact (h.of_on (h.on.addAttributes 0 attributes)).fits
    · exact (openBody h.toRooted attributes).fits
    · exact h.fits
    · split
      · exact hbody h _
      · next opened hhead =>
        split
        · refine (h.fitsOutside.headElement? h.stack_ne_nil rfl hhead).onShape ?_
          cases opened.stack <;> rfl
        · exact (h.of_on (h.on.onStack (Stack.ground_of_shape (Stack.shape_attach _ _ _)))).fits
  | closing name =>
    simp only [Builder.afterHead]
    split
    · exact hbody h _
    · exact h.fits

theorem afterBody (h : b.InPage) (t : Token) (hmode : b.mode ≠ .inCell) :
    (b.afterBody t).Fits := by
  have hhere := h.inBody_of_mode_ne hmode t
  have hagain := h.inBody_again t
  cases t with
  | doctype d => exact h.fits
  | comment content => exact InPage.fits ⟨h.toRooted, h.mode, h.cell⟩
  | text content =>
    simp only [Builder.afterBody]
    split
    · exact hhere
    · exact hagain
  | opening name attributes selfClosing =>
    simp only [Builder.afterBody]
    split
    · exact hhere
    · exact hagain
  | closing name =>
    simp only [Builder.afterBody]
    split
    · exact (h.withMode .afterRoot rfl (by decide)).fits
    · exact hagain

theorem afterRoot (h : b.InPage) (t : Token) (hmode : b.mode ≠ .inCell) :
    (b.afterRoot t).Fits := by
  have hhere := h.inBody_of_mode_ne hmode t
  have hagain := h.inBody_again t
  cases t with
  | doctype d => exact h.fits
  | comment content => exact InPage.fits ⟨h.toRooted, h.mode, h.cell⟩
  | text content =>
    simp only [Builder.afterRoot]
    split
    · exact hhere
    · exact hagain
  | opening name attributes selfClosing =>
    simp only [Builder.afterRoot]
    split
    · exact hhere
    · exact hagain
  | closing name => exact hagain

theorem openHead (h : b.InPage) (attributes : List Attribute) :
    (b.openHead attributes).FitsOutside :=
  ⟨h.toApart.push _ _, .head rfl h.root, fun hnil => absurd hnil (List.cons_ne_nil _ _)⟩

end InPage

namespace FitsOutside

/-- Closing the head leaves what is open around it. -/
theorem closeHead (h : b.FitsOutside) (hmode : b.mode = .inHead) : b.closeHead.InPage := by
  obtain ⟨f, rest, hstack, -, hroot⟩ := h.place.exists_of_inHead hmode
  have hpop : b.stack.pop.shape = Stack.shape rest := by rw [Stack.shape_pop, hstack]; rfl
  exact inPage_of_rooted ⟨h.apart.popMany 1, hroot.of_ground (Stack.ground_of_shape hpop.symm)⟩ rfl
    (by decide)

theorem inHead (h : b.FitsOutside) (hmode : b.mode = .inHead) (t : Token) : (b.inHead t).Fits := by
  have hafter := fun t => (h.closeHead hmode).afterHead t
  have hne : b.stack ≠ [] := by
    obtain ⟨f, rest, hstack, -, -⟩ := h.place.exists_of_inHead hmode
    exact hstack ▸ List.cons_ne_nil _ _
  cases t with
  | doctype d => exact h.fits
  | comment content => exact (h.insertNode _).fits
  | text content =>
    have hblanks := h.insertText (content.takeWhile Text.isMarkupBlank)
    simp only [Builder.inHead, Builder.splitBlanks]
    split
    · exact hblanks.fits
    · exact (hblanks.closeHead ((mode_insertText _ _).trans hmode)).afterHead _
  | opening name attributes selfClosing =>
    simp only [Builder.inHead]
    split_ifs
    · exact (h.addAttributes 0 attributes).fits
    · exact h.fits
    · cases hhead : b.headElement? ⟨name, attributes, .page⟩ with
      | none => exact hafter (.opening name attributes _)
      | some b' => exact h.headElement? hne rfl hhead
  | closing name =>
    simp only [Builder.inHead]
    split_ifs
    · exact (h.closeHead hmode).fits
    · exact hafter _
    · exact h.fits

end FitsOutside

theorem InPage.beforeHead (h : b.InPage) (t : Token) : (b.beforeHead t).Fits := by
  have hhead : ∀ t, ((b.openHead []).inHead t).Fits := (h.openHead []).inHead rfl
  cases t with
  | doctype d => exact h.fits
  | comment content => exact (h.of_on (h.on.insertNode _)).fits
  | text content =>
    simp only [Builder.beforeHead, Builder.splitBlanks]
    split
    · exact h.fits
    · exact hhead _
  | opening name attributes selfClosing =>
    simp only [Builder.beforeHead]
    split_ifs
    · exact (h.of_on (h.on.addAttributes 0 attributes)).fits
    · exact (h.openHead attributes).fits
    · exact hhead _
  | closing name =>
    simp only [Builder.beforeHead]
    split
    · exact hhead _
    · exact h.fits

/-- Before anything is open. -/
structure AtStart (b : Builder) : Prop where
  apart : b.toOpen.Apart
  mode : b.mode = .initial ∨ b.mode = .beforeRoot
  stack : b.stack = []
  next : b.nextId = 0

namespace AtStart

theorem fits (h : b.AtStart) : b.Fits :=
  ⟨h.apart, .inl (h.stack ▸ .start h.mode), fun _ => h.next⟩

theorem openRoot (h : b.AtStart) (attributes : List Attribute) : (b.openRoot attributes).InPage :=
  inPage_of_rooted ⟨h.apart.push _ _, [], _, congrArg (_ :: ·) h.stack, rfl, h.next⟩ rfl
    (by decide)

theorem beforeRoot (h : b.AtStart) (t : Token) : (b.beforeRoot t).Fits := by
  have hroot : ∀ t, ((b.openRoot []).beforeHead t).Fits := (h.openRoot []).beforeHead
  cases t with
  | doctype d => exact h.fits
  | comment content => exact AtStart.fits ⟨h.apart, h.mode, h.stack, h.next⟩
  | text content =>
    simp only [Builder.beforeRoot, Builder.splitBlanks]
    split
    · exact h.fits
    · exact hroot _
  | opening name attributes selfClosing =>
    simp only [Builder.beforeRoot]
    split
    · exact (h.openRoot attributes).fits
    · exact hroot _
  | closing name =>
    simp only [Builder.beforeRoot]
    split
    · exact hroot _
    · exact h.fits

theorem undeclared (h : b.AtStart) :
    ({ b with isOld := true, mode := .beforeRoot } : Builder).AtStart :=
  ⟨h.apart, .inr rfl, h.stack, h.next⟩

theorem initial (h : b.AtStart) (t : Token) : (b.initial t).Fits := by
  cases t with
  | doctype d => exact AtStart.fits ⟨h.apart, .inr rfl, h.stack, h.next⟩
  | comment content => exact AtStart.fits ⟨h.apart, h.mode, h.stack, h.next⟩
  | text content =>
    simp only [Builder.initial, Builder.splitBlanks]
    split
    · exact h.fits
    · exact h.undeclared.beforeRoot _
  | opening name attributes selfClosing =>
    exact h.undeclared.beforeRoot (.opening name attributes selfClosing)
  | closing name => exact h.undeclared.beforeRoot (.closing name)

end AtStart

/-! ## From the first token to the last -/

theorem FitsOutside.atStart (h : b.FitsOutside) (hmode : b.mode = .initial ∨ b.mode = .beforeRoot) :
    b.AtStart :=
  ⟨h.apart, hmode, h.place.eq_nil hmode, h.start (h.place.eq_nil hmode)⟩

theorem FitsOutside.byMode (h : b.FitsOutside) (t : Token) : (b.byMode t).Fits := by
  unfold Builder.byMode
  split
  · next hmode => exact (h.atStart (.inl hmode)).initial t
  · next hmode => exact (h.atStart (.inr hmode)).beforeRoot t
  · next hmode => exact (h.inPage (hmode ▸ rfl)).beforeHead t
  · next hmode => exact h.inHead hmode t
  · next hmode => exact (h.inPage (hmode ▸ rfl)).afterHead t
  · next hmode =>
    exact (h.inPage (hmode ▸ rfl)).inBody_of_mode_ne (by rw [hmode]; decide) t
  · next hmode => exact absurd hmode h.place.ne_inText
  · next hmode => exact (h.inPage (hmode ▸ rfl)).inTable t
  · next hmode => exact (h.inPage (hmode ▸ rfl)).inCaption t
  · next hmode => exact (h.inPage (hmode ▸ rfl)).inColumns t
  · next hmode => exact (h.inPage (hmode ▸ rfl)).inTableBody t
  · next hmode => exact (h.inPage (hmode ▸ rfl)).inRow t
  · next hmode => exact (h.inPage (hmode ▸ rfl)).inCell hmode t
  · next hmode => exact (h.inPage (hmode ▸ rfl)).afterBody t (by rw [hmode]; decide)
  · next hmode => exact (h.inPage (hmode ▸ rfl)).afterRoot t (by rw [hmode]; decide)

/-- Where text ends, what is open fits to the mode that the page goes back to. -/
theorem Fits.endTextElement (h : b.Fits) (hmode : b.mode = .inText) :
    ({ b.onStack Stack.pop with mode := b.resume, textReading := none } : Builder).FitsOutside := by
  rcases h.place with hplace | ⟨-, f, rest, hstack, -, -, hne, hrest⟩
  · exact absurd hmode hplace.ne_inText
  · have hshape : Stack.shape rest = b.stack.pop.shape := by
      rw [Stack.shape_pop, hstack]
      rfl
    exact ⟨h.apart.popMany 1, hrest.of_shape hshape,
      fun hnil => absurd (Stack.eq_nil_of_shape hshape.symm hnil) hne⟩

theorem Fits.inText (h : b.Fits) (hmode : b.mode = .inText) (t : Token) : (b.inText t).Fits := by
  cases t with
  | doctype d => exact h
  | comment content => exact h
  | text content =>
    simp only [Builder.inText, Builder.insertText]
    split
    · exact h
    · exact h.onShape (Stack.shape_attach _ _ _)
  | opening name attributes selfClosing => exact h
  | closing name => exact (h.endTextElement hmode).fits

theorem isGround_of_isForeign {f : Frame} (h : isForeign f = true) : f.isGround = false :=
  Tag.isGround_of_space (by simpa [isForeign] using h)

/-- The rules of drawings and formulas close nothing else. -/
theorem InPage.inForeign (h : b.InPage) {f : Frame} {rest : Stack} (hstack : b.stack = f :: rest)
    (hforeign : isForeign f = true) (t : Token) : (b.inForeign t).Fits := by
  cases t with
  | doctype d => exact h.fits
  | comment content => exact (h.of_on (h.on.insertNode _)).fits
  | text content => exact (h.of_on (h.on.insertText _)).fits
  | opening name attributes selfClosing =>
    have hspace : f.tag.space ≠ .page := by simpa [isForeign] using hforeign
    have htag : (Foreign.tag f.tag.space name attributes).isGround = false :=
      Tag.isGround_of_space ((space_foreign _ name attributes).symm ▸ hspace)
    simp only [Builder.inForeign, hstack]
    split_ifs
    · refine (h.of_on (h.on.onStack (Stack.ground_popWhile fun f hf => ?_))).fitsOutside.byMode _
      exact isGround_of_isForeign (Bool.and_eq_true_iff.1 hf).1
    · exact (h.of_on (h.on.insertNode _)).fits
    · exact (h.of_on (h.on.insert htag)).fits
  | closing name =>
    simp only [Builder.inForeign]
    split
    · exact h.fits
    · next f hfind =>
      split_ifs with hf
      · refine (h.of_on (h.on.onStack ?_)).fits
        refine Stack.ground_popThrough_find? (fun g hg => ?_) (isGround_of_isForeign hf) hfind
        have hnot : isForeign g = false := Bool.eq_false_iff.2 fun hf => by
          rw [isGround_of_isForeign hf] at hg
          cases hg
        rw [hnot]
        rfl
      · exact h.fitsOutside.byMode _

theorem Fits.take (h : b.Fits) (t : Token) :
    (if b.isInForeign t then b.inForeign t else b.byMode t).Fits := by
  split
  · next hin =>
    unfold Builder.isInForeign at hin
    split at hin
    · cases hin
    · next f rest hstack =>
      have hforeign := (Bool.and_eq_true_iff.1 hin).1
      have hspace : f.tag.space ≠ .page := by simpa [isForeign] using hforeign
      rcases h.place with hplace | ⟨-, top, rest', hstack', htop, -⟩
      · have hplace' := hplace
        rw [hstack] at hplace'
        exact (FitsOutside.inPage ⟨h.apart, hplace, h.start⟩
          (hplace'.isPage_of_space hspace)).inForeign hstack hforeign t
      · rw [hstack] at hstack'
        rw [(List.cons.inj hstack').1] at hspace
        exact absurd htop hspace
  · rcases h.place with hplace | ⟨hmode, -⟩
    · exact FitsOutside.byMode ⟨h.apart, hplace, h.start⟩ t
    · rw [Builder.byMode, hmode]
      exact h.inText hmode t

/-- **A step keeps what is open fitting** to how far the page is. -/
theorem Fits.step (h : b.Fits) (t : Token) : (b.step t).Fits := by
  have hkept : ({ b with dropsNewline := false } : Builder).Fits := ⟨h.apart, h.place, h.start⟩
  unfold Builder.step
  dsimp only
  split
  · exact hkept
  · exact hkept.take _

/-- **Reading keeps what is open fitting,** token by token. -/
theorem Fits.run (h : b.Fits) (page : List Char) : (b.run page).Fits := by
  fun_induction Builder.run b page with
  | case1 b => exact h
  | case2 b c rest tail _ ih => exact ih h
  | case3 b c rest t tail _ ih => exact ih (h.step t)

theorem fits_start : ({} : Builder).Fits :=
  AtStart.fits ⟨⟨fun _ hi => absurd hi List.not_mem_nil, fun _ _ he => absurd he List.not_mem_nil⟩,
    .inl rfl, rfl, rfl⟩

theorem Fits.endText (h : b.Fits) : b.endText.FitsOutside := by
  unfold Builder.endText
  split
  · next hmode => exact h.endTextElement hmode
  · next hmode => exact ⟨h.apart, h.place.resolve_right fun hin => hmode hin.1, h.start⟩

/-- At the end of a page its root is open. -/
theorem FitsOutside.complete (h : b.FitsOutside) : b.complete.InPage := by
  have hhead : ∀ {b : Builder}, b.InPage → ((b.openHead []).closeHead.openBody []).InPage :=
    fun hb => InPage.openBody ((hb.openHead []).closeHead rfl).toRooted []
  unfold Builder.complete
  split
  · next hmode =>
    have hstart := h.atStart (.inl hmode)
    have hold : ({ b with isOld := true } : Builder).AtStart :=
      ⟨hstart.apart, hstart.mode, hstart.stack, hstart.next⟩
    exact hhead (hold.openRoot [])
  · next hmode => exact hhead ((h.atStart (.inr hmode)).openRoot [])
  · next hmode => exact hhead (h.inPage (hmode ▸ rfl))
  · next hmode => exact InPage.openBody (h.closeHead hmode).toRooted []
  · next hmode => exact InPage.openBody (h.inPage (hmode ▸ rfl)).toRooted []
  · next h₁ h₂ h₃ h₄ h₅ =>
    refine h.inPage ?_
    have htext := h.place.ne_inText
    cases hmode : b.mode <;> first | rfl | contradiction

end Builder

/-- **The root of every parsed page** is an element of the page itself named `html`. -/
theorem Page.exists_root_read (text : List Char) : ∃ tag children,
    (Page.read text).root = .element tag children ∧ tag.isPage "html" = true := by
  have hend := (Builder.fits_start.run (Text.unifyNewlines text)).endText.complete
  unfold Page.read Builder.finish
  dsimp only
  split
  · exact ⟨_, _, rfl, rfl⟩
  · next f rest hstack =>
    -- all but the outermost element has been closed
    obtain ⟨inner, root, hopen, hroot, -⟩ := hend.root
    have hshape : Stack.shape (f :: rest) = [root.shape] := by
      rw [← hstack, Stack.shape_popMany, hopen]
      simp [Stack.shape]
    have hpage : f.tag.isPage "html" = true :=
      (congrArg (fun a : Nat × Tag => a.2.isPage "html") (List.cons.inj hshape).1).trans hroot
    exact ⟨_, _, rfl, hpage⟩

end Html
end DocHighlighter
