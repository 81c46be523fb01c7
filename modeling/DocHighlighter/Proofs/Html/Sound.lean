/-
# Parsed pages are built of what is read

Whatever the start tags of a page are like, the tags of the parsed page are what comes of them, and
no text of it has a U+0000 (`Page.madeOf_read`).  So no attribute's value has one either
(`Page.nulFree_read`).

Where markup counts, the text of a token may have a U+0000, and the rules of the body and of
tables drop it.  In an element that has nothing but text the rules put in what they get,
but there the reading has replaced it already.  That the two fit together is the
invariant `Builder.Sound`: whenever the page is in such an element, its text is not read
as markup.  The rules of all other modes are entered outside of such elements
(`Builder.Outside`), and each keeps what is open built of the stock; one step and
then the whole run follow.
-/

import DocHighlighter.Proofs.Html.MadeOf
import DocHighlighter.Proofs.Html.NulFree
import Mathlib.Data.List.TakeWhile

namespace DocHighlighter
namespace Html

open Token (withoutNul)

variable {k : Stock}

/-- A token has a start tag of the stock, or none. -/
def Token.MadeOf (k : Stock) : Token → Prop
  | opening name attributes _ => k.start name attributes
  | _ => True

/-- Every start tag that a page can be read as, from any of its places on, is of the stock. -/
def Stock.Covers (k : Stock) (page : List Char) : Prop :=
  ∀ rest name attributes selfClosing, '<' :: rest <:+ page →
    (Token.tag .opening rest).1 = some (.opening name attributes selfClosing) →
      k.start name attributes

theorem Stock.Covers.of_suffix {page tail : List Char} (h : k.Covers page) (htail : tail <:+ page) :
    k.Covers tail :=
  fun rest _ _ _ hrest hread => h rest _ _ _ (hrest.trans htail) hread

theorem Stock.Covers.madeOf_next {reading : Reading} {c : Char} {rest : List Char} {t : Token}
    (h : k.Covers (c :: rest)) (hnext : (Token.next reading c rest).1 = some t) : t.MadeOf k := by
  cases t with
  | opening name attributes selfClosing =>
    obtain ⟨rfl, hread⟩ := Token.opening_of_next hnext
    exact h rest name attributes selfClosing (List.suffix_refl _) hread
  | _ => trivial

/-! ## The page that is being built -/

namespace Builder

variable {b : Builder} {tag : Tag} {attributes : List Attribute} {t : Token}

theorem modeFor_ne_inText (s : Stack) : modeFor s ≠ .inText := by
  induction s with
  | nil => decide
  | cons f rest ih =>
    unfold modeFor
    split_ifs <;> first | decide | exact ih

/-- What has been built is built of a stock. -/
structure MadeOf (k : Stock) (b : Builder) : Prop where
  toOpen : b.toOpen.MadeOf k
  behindBody : ∀ n ∈ b.behindBody, n.MadeOf k

/-- The page is not in an element that has nothing but text. -/
structure Outside (k : Stock) (b : Builder) : Prop extends MadeOf k b where
  mode : b.mode ≠ .inText

/-- In an element that has nothing but text, the text is not read as markup, and the page goes on
outside of it. -/
structure Sound (k : Stock) (b : Builder) : Prop extends MadeOf k b where
  text : b.mode = .inText →
    (∃ r, b.textReading = some r ∧ ∀ foreign, r ≠ .markup foreign) ∧ b.resume ≠ .inText

theorem Outside.sound (h : b.Outside k) : b.Sound k :=
  ⟨h.toMadeOf, fun hmode => absurd hmode h.mode⟩

theorem MadeOf.onOpen (h : b.MadeOf k) {f : Open → Open} (hf : (f b.toOpen).MadeOf k) :
    (b.onOpen f).MadeOf k :=
  ⟨hf, h.behindBody⟩

theorem MadeOf.onStack (h : b.MadeOf k) {f : Stack → Stack} (hf : (f b.stack).MadeOf k) :
    (b.onStack f).MadeOf k :=
  ⟨h.toOpen.onStack hf, h.behindBody⟩

theorem MadeOf.insertNode (h : b.MadeOf k) {n : Node} (hn : n.MadeOf k) :
    (b.insertNode n).MadeOf k :=
  h.onStack (h.toOpen.stack.attach hn _)

theorem MadeOf.insertText (h : b.MadeOf k) {content : List Char} (hcontent : '\x00' ∉ content) :
    (b.insertText content).MadeOf k := by
  unfold Builder.insertText
  split
  · exact h
  · exact h.insertNode (.text hcontent)

theorem mode_insertText (b : Builder) (content : List Char) :
    (b.insertText content).mode = b.mode := by
  unfold Builder.insertText
  split <;> rfl

/-! ### Outside of text -/

namespace Outside

theorem onOpen (h : b.Outside k) {f : Open → Open}
    (hf : ∀ {o : Open}, o.MadeOf k → (f o).MadeOf k) : (b.onOpen f).Outside k :=
  ⟨h.toMadeOf.onOpen (hf h.toOpen), h.mode⟩

theorem onStack (h : b.Outside k) {f : Stack → Stack}
    (hf : ∀ {s : Stack}, s.MadeOf k → (f s).MadeOf k) : (b.onStack f).Outside k :=
  ⟨h.toMadeOf.onStack (hf h.toOpen.stack), h.mode⟩

theorem ite {c : Prop} [Decidable c] {b' : Builder} (h : b.Outside k) (h' : b'.Outside k) :
    (if c then b else b').Outside k := by
  split
  · exact h
  · exact h'

theorem withMode (h : b.Outside k) {mode : Mode} (hmode : mode ≠ .inText) :
    ({ b with mode := mode } : Builder).Outside k :=
  ⟨⟨h.toOpen, h.behindBody⟩, hmode⟩

theorem insert (h : b.Outside k) (htag : k.tag tag) : (b.insert tag).Outside k :=
  h.onOpen fun ho => ho.push htag _

theorem insertNode (h : b.Outside k) {n : Node} (hn : n.MadeOf k) : (b.insertNode n).Outside k :=
  ⟨h.toMadeOf.insertNode hn, h.mode⟩

theorem insertEmpty (h : b.Outside k) (htag : k.tag tag) :
    (b.insertNode (.element tag [])).Outside k :=
  h.insertNode (.empty htag)

theorem insertText (h : b.Outside k) {content : List Char} (hcontent : '\x00' ∉ content) :
    (b.insertText content).Outside k :=
  ⟨h.toMadeOf.insertText hcontent, (mode_insertText b content).symm ▸ h.mode⟩

theorem restart (h : b.Outside k) : b.restart.Outside k :=
  h.onOpen fun ho => ho.restart _

theorem closeWithin (h : b.Outside k) (stops target : Frame → Bool) :
    (b.closeWithin stops target).Outside k := by
  unfold Builder.closeWithin
  split
  · exact h.onStack fun hs => hs.popMany _
  · exact h

theorem closeParagraph (h : b.Outside k) : b.closeParagraph.Outside k :=
  h.closeWithin _ _

/-- An element that has nothing but text is opened: its text is read in its own way. -/
theorem insertTextElement (h : b.Outside k) (htag : k.tag tag) {reading : Reading}
    (hreading : ∀ foreign, reading ≠ .markup foreign) :
    (b.insertTextElement tag reading).Sound k :=
  ⟨⟨(h.insert htag).toOpen, h.behindBody⟩, fun _ => ⟨⟨reading, rfl, hreading⟩, h.mode⟩⟩

theorem headElement? (h : b.Outside k) (htag : k.tag tag) {b' : Builder}
    (hb : b.headElement? tag = some b') : b'.Sound k := by
  unfold Builder.headElement? at hb
  split at hb
  · obtain rfl := Option.some.inj hb
    exact (h.insertEmpty htag).sound
  · split at hb
    · obtain rfl := Option.some.inj hb
      exact h.insertTextElement htag (by simp)
    · split at hb
      · obtain rfl := Option.some.inj hb
        exact h.insertTextElement htag (by simp)
      · cases hb

theorem addAttributes (h : b.Outside k) (level : Nat) (hstart : k.start name attributes) :
    (b.addAttributes level attributes).Outside k := by
  refine h.onStack fun {s} hs f hf => ?_
  obtain ⟨i, hi, rfl⟩ := List.mem_iff_getElem.1 hf
  rw [List.getElem_modify]
  have hlt : i < s.length := by simpa using hi
  have hold : s[i].MadeOf k := hs _ (List.getElem_mem hlt)
  split
  · exact ⟨k.tag_of_more hold.1 hstart fun a ha => List.mem_of_mem_filter ha, hold.2⟩
  · exact hold

/-! ### In the body -/

theorem closeItem (h : b.Outside k) (names : List String) :
    (b.onStack (closeItem names)).Outside k := by
  refine h.onStack fun hs => ?_
  unfold Builder.closeItem
  split
  · exact hs
  · split
    · exact hs.popMany _
    · exact hs

theorem insertFormat (h : b.Outside k) (htag : k.tag tag) : (b.insertFormat tag).Outside k :=
  h.onOpen fun ho => ho.pushFormat htag _

theorem adopt (h : b.Outside k) (name : String) : (b.adopt name).Outside k :=
  h.onOpen fun ho => ho.adopt _ name

theorem forgetOpen (h : b.Outside k) (name : String) : (b.onOpen (forgetOpen name)).Outside k := by
  refine h.onOpen fun ho => ?_
  unfold Builder.forgetOpen
  split
  · exact ho.forget _
  · exact ho

theorem popIf (h : b.Outside k) (p : Frame → Bool) :
    (match b.stack with
      | f :: _ => if p f then b.onStack Stack.pop else b
      | [] => b).Outside k := by
  split
  · split
    · exact h.onStack fun hs => hs.pop
    · exact h
  · exact h

theorem openInBody (h : b.Outside k) (name : String) (hstart : k.start name attributes)
    (selfClosing : Bool) : (b.openInBody name attributes selfClosing).Sound k := by
  have htag : k.tag ⟨name, attributes, .page⟩ := k.tag_of_start hstart .page
  unfold Builder.openInBody
  dsimp only
  split
  · next hhead => exact h.headElement? htag hhead
  · cases openingRule name with
    | root => exact (h.addAttributes 0 hstart).sound
    | body => exact (h.addAttributes 1 hstart).sound
    | ignored => exact h.sound
    | block => exact (h.closeParagraph.insert htag).sound
    | heading => exact ((h.closeParagraph.popIf Frame.isHeading).insert htag).sound
    | preformatted =>
      have hpre := h.closeParagraph.insert htag
      exact Outside.sound ⟨⟨hpre.toOpen, hpre.behindBody⟩, hpre.mode⟩
    | form =>
      dsimp only
      split
      · exact h.sound
      · exact (h.closeParagraph.insert htag).sound
    | item names => exact ((h.closeItem names).closeParagraph.insert htag).sound
    | plain =>
      have hplain := h.closeParagraph.insert htag
      exact Outside.sound ⟨⟨hplain.toOpen, hplain.behindBody⟩, hplain.mode⟩
    | button => exact ((h.closeWithin Frame.bounds (·.isPage "button")).restart.insert htag).sound
    | anchor =>
      refine (Outside.insertFormat (Outside.restart ?_) htag).sound
      split
      · exact (h.adopt "a").forgetOpen "a"
      · exact h
    | format => exact (h.restart.insertFormat htag).sound
    | noBreak =>
      refine (Outside.insertFormat ?_ htag).sound
      split
      · exact (h.restart.adopt "nobr").restart
      · exact h.restart
    | bounded => exact ((h.restart.insert htag).onOpen fun ho => ho.mark).sound
    | table =>
      refine (Outside.withMode (Outside.insert ?_ htag) (by decide)).sound
      split
      · exact h
      · exact h.closeParagraph
    | empty => exact (h.restart.insertEmpty htag).sound
    | emptyInfo => exact (h.insertEmpty htag).sound
    | line => exact (h.closeParagraph.insertEmpty htag).sound
    | image =>
      have himage : k.tag ⟨"img", attributes, .page⟩ := k.tag_of_implied hstart (by decide)
      exact (h.restart.insertEmpty himage).sound
    | textArea =>
      have harea := h.insertTextElement htag (by simp : ∀ foreign,
        Reading.references name.toList ≠ .markup foreign)
      exact ⟨⟨harea.toOpen, harea.behindBody⟩, harea.text⟩
    | verbatim => exact h.closeParagraph.restart.insertTextElement htag (by simp)
    | frame => exact h.insertTextElement htag (by simp)
    | choice => exact ((h.popIf (·.isPage "option")).restart.insert htag).sound
    | foreign space =>
      have hforeign := k.tag_of_start hstart space
      dsimp only
      split
      · exact (h.restart.insertEmpty hforeign).sound
      · exact (h.restart.insert hforeign).sound
    | ordinary => exact (h.restart.insert htag).sound

theorem closeInBody (h : b.Outside k) (name : String) : (b.closeInBody name).Outside k := by
  unfold Builder.closeInBody
  -- the body or the root
  refine .ite (.ite (h.withMode (by split <;> decide)) h) ?_
  refine .ite (h.closeWithin _ _) ?_
  -- a paragraph
  refine .ite (Outside.closeParagraph (.ite h (h.insert (k.tag_of_bare (by decide))))) ?_
  refine .ite (h.closeWithin _ _) (.ite (h.closeWithin _ _) (.ite (h.closeWithin _ _) ?_))
  refine .ite (h.adopt name) ?_
  -- an element that bounds formatting
  refine .ite (.ite ((h.onStack fun hs => hs.popMany _).onOpen fun ho => ho.unmark) h) ?_
  exact .ite (h.restart.insertEmpty (k.tag_of_bare (by decide))) (h.onOpen fun ho => ho.close name)

theorem inBody (h : b.Outside k) (ht : t.MadeOf k) : (b.inBody t).Sound k := by
  cases t with
  | doctype d => exact h.sound
  | comment content => exact (h.insertNode (.comment content)).sound
  | text content =>
    have hfiltered : '\x00' ∉ content.filter (· != '\x00') := by simp
    simp only [Builder.inBody]
    split
    · exact h.sound
    · exact (h.restart.insertText hfiltered).sound
  | opening name attributes selfClosing => exact h.openInBody name ht selfClosing
  | closing name => exact (h.closeInBody name).sound

/-! ### In tables -/

theorem clearTo (h : b.Outside k) (names : List String) : (b.clearTo names).Outside k :=
  h.onStack fun hs => hs.popMany _

theorem closeTable (h : b.Outside k) : b.closeTable.Outside k := by
  unfold Builder.closeTable
  split
  · exact Outside.withMode (h.onStack fun hs => hs.popMany _) (modeFor_ne_inText _)
  · exact h

theorem besideTable (h : b.Outside k) (ht : t.MadeOf k) : (b.besideTable t).Sound k := by
  have hinside : ({ b with outsideTable := true } : Builder).Outside k :=
    ⟨⟨h.toOpen, h.behindBody⟩, h.mode⟩
  have hbody := hinside.inBody ht
  exact ⟨⟨hbody.toOpen, hbody.behindBody⟩, hbody.text⟩

theorem openCell (h : b.Outside k) (htag : k.tag tag) : (b.openCell tag).Outside k :=
  (((h.clearTo ["tr"]).insert htag).onOpen fun ho => ho.mark).withMode (by decide)

theorem openRow (h : b.Outside k) (htag : k.tag tag) : (b.openRow tag).Outside k := by
  have hclear := h.clearTo ["tbody", "tfoot", "thead"]
  unfold Builder.openRow
  dsimp only
  split
  · exact (hclear.insert htag).withMode (by decide)
  · exact ((hclear.insert (k.tag_of_bare (by decide))).withMode (by decide)).openCell htag

theorem openPart (h : b.Outside k) (htag : k.tag tag) : (b.openPart tag).Outside k := by
  have hclear := h.clearTo ["table"]
  unfold Builder.openPart
  dsimp only
  split_ifs
  · exact ((hclear.onOpen fun ho => ho.mark).insert htag).withMode (by decide)
  · exact (hclear.insert htag).withMode (by decide)
  · exact ((hclear.insert (k.tag_of_bare (by decide))).withMode (by decide)).insertEmpty htag
  · exact (hclear.insert htag).withMode (by decide)
  · exact ((hclear.insert (k.tag_of_bare (by decide))).withMode (by decide)).openRow htag

theorem inTable (h : b.Outside k) (ht : t.MadeOf k) : (b.inTable t).Sound k := by
  cases t with
  | doctype d => exact h.sound
  | comment content => exact (h.insertNode (.comment content)).sound
  | text content =>
    have hfiltered : '\x00' ∉ content.filter (· != '\x00') := by simp
    simp only [Builder.inTable]
    split_ifs
    · exact (h.insertText hfiltered).sound
    · exact h.besideTable trivial
  | opening name attributes selfClosing =>
    have htag : k.tag ⟨name, attributes, .page⟩ := k.tag_of_start ht .page
    simp only [Builder.inTable]
    split_ifs
    · exact (h.openPart htag).sound
    · exact h.closeTable.openInBody name ht selfClosing
    · exact h.sound
    · cases hhead : b.headElement? ⟨name, attributes, .page⟩ with
      | none => exact h.sound
      | some b' => exact h.headElement? htag hhead
    · exact (h.insertEmpty htag).sound
    · exact h.besideTable ht
  | closing name =>
    simp only [Builder.inTable]
    split_ifs
    · exact h.closeTable.sound
    · exact h.sound
    · exact h.besideTable ht

theorem closePart (h : b.Outside k) (names : List String) {mode : Mode} (hmode : mode ≠ .inText) :
    (b.closePart names mode).Outside k :=
  Outside.withMode ((h.clearTo names).onStack fun hs => hs.pop) hmode

theorem inTableBody (h : b.Outside k) (ht : t.MadeOf k) : (b.inTableBody t).Sound k := by
  have hclosed := fun names => h.closePart names (by decide : Mode.inTable ≠ .inText)
  unfold Builder.inTableBody
  dsimp only
  split
  · next name attributes selfClosing =>
    have htag : k.tag ⟨name, attributes, .page⟩ := k.tag_of_start ht .page
    split_ifs
    · exact (h.openRow htag).sound
    · exact (hclosed _).inTable ht
    · exact h.sound
    · exact h.inTable ht
  · split_ifs
    · exact (hclosed _).sound
    · exact h.sound
    · exact (hclosed _).inTable ht
    · exact h.sound
    · exact h.sound
    · exact h.inTable ht
  · exact h.inTable ht

theorem inRow (h : b.Outside k) (ht : t.MadeOf k) : (b.inRow t).Sound k := by
  have hclosed := h.closePart ["tr"] (by decide : Mode.inTableBody ≠ .inText)
  unfold Builder.inRow
  split
  · next name attributes selfClosing =>
    have htag : k.tag ⟨name, attributes, .page⟩ := k.tag_of_start ht .page
    split_ifs
    · exact (h.openCell htag).sound
    · exact hclosed.inTableBody ht
    · exact h.sound
    · exact h.inTable ht
  · split_ifs
    · exact hclosed.sound
    · exact h.sound
    · exact hclosed.inTableBody ht
    · exact h.sound
    · exact h.sound
    · exact h.inTable ht
  · exact h.inTable ht

/-- The innermost element of a kind is closed, with the formatting in it. -/
theorem closeMarked (h : b.Outside k) (p : Frame → Bool) {mode : Mode} (hmode : mode ≠ .inText) :
    ({ (b.onStack (·.popThrough p)).onOpen Open.unmark with mode := mode } : Builder).Outside k :=
  ((h.onStack fun hs => hs.popMany _).onOpen fun ho => ho.unmark).withMode hmode

theorem inCell (h : b.Outside k) (ht : t.MadeOf k) : (b.inCell t).Sound k := by
  have hclosed : b.closeCell.Outside k := h.closeMarked _ (by decide)
  unfold Builder.inCell
  dsimp only
  split
  · split_ifs
    · exact hclosed.inRow ht
    · exact h.sound
    · exact h.inBody ht
  · split_ifs
    · exact (h.closeMarked _ (by decide)).sound
    · exact h.sound
    · exact h.sound
    · exact hclosed.inRow ht
    · exact h.sound
    · exact h.inBody ht
  · exact h.inBody ht

theorem inCaption (h : b.Outside k) (ht : t.MadeOf k) : (b.inCaption t).Sound k := by
  have hclosed := h.closeMarked (·.isPage "caption") (by decide : Mode.inTable ≠ .inText)
  unfold Builder.inCaption
  dsimp only
  split
  · split_ifs
    · exact hclosed.inTable ht
    · exact h.sound
    · exact h.inBody ht
  · split_ifs
    · exact hclosed.sound
    · exact h.sound
    · exact hclosed.inTable ht
    · exact h.sound
    · exact h.sound
    · exact h.inBody ht
  · exact h.inBody ht

theorem closeColumns (h : b.Outside k) {b' : Builder} (hb : b.closeColumns = some b') :
    b'.Outside k := by
  unfold Builder.closeColumns at hb
  split at hb
  · split at hb
    · obtain rfl := Option.some.inj hb
      exact Outside.withMode (h.onStack fun hs => hs.pop) (by decide)
    · cases hb
  · cases hb

/-- A token that ends the columns of a table counts in the table. -/
theorem afterColumns (h : b.Outside k) (ht : t.MadeOf k) :
    (match b.closeColumns with
      | some b => b.inTable t
      | none => b).Sound k := by
  split
  · next hb => exact (h.closeColumns hb).inTable ht
  · exact h.sound

theorem nul_not_mem_blanks (content : List Char) :
    '\x00' ∉ content.takeWhile Text.isMarkupBlank :=
  fun hmem => absurd (List.mem_takeWhile_imp hmem : Text.isMarkupBlank '\x00' = true) (by decide)

theorem inColumns (h : b.Outside k) (ht : t.MadeOf k) : (b.inColumns t).Sound k := by
  cases t with
  | doctype d => exact h.sound
  | comment content => exact (h.insertNode (.comment content)).sound
  | text content =>
    have hblanks := h.insertText (nul_not_mem_blanks content)
    simp only [Builder.inColumns]
    split
    · exact hblanks.sound
    · exact hblanks.afterColumns trivial
  | opening name attributes selfClosing =>
    have htag : k.tag ⟨name, attributes, .page⟩ := k.tag_of_start ht .page
    simp only [Builder.inColumns]
    split
    · exact (h.insertEmpty htag).sound
    · exact h.afterColumns ht
  | closing name =>
    simp only [Builder.inColumns]
    split_ifs
    · cases hclosed : b.closeColumns with
      | none => exact h.sound
      | some b' => exact (h.closeColumns hclosed).sound
    · exact h.sound
    · exact h.afterColumns ht

/-! ### Around the body -/

theorem openRoot (h : b.Outside k) (htag : k.tag ⟨"html", attributes, .page⟩) :
    (b.openRoot attributes).Outside k :=
  (h.insert htag).withMode (by decide)

theorem openHead (h : b.Outside k) (htag : k.tag ⟨"head", attributes, .page⟩) :
    (b.openHead attributes).Outside k :=
  (h.insert htag).withMode (by decide)

theorem closeHead (h : b.Outside k) : b.closeHead.Outside k :=
  Outside.withMode (h.onStack fun hs => hs.pop) (by decide)

theorem openBody (h : b.Outside k) (htag : k.tag ⟨"body", attributes, .page⟩) :
    (b.openBody attributes).Outside k :=
  (h.insert htag).withMode (by decide)

/-- A text is split into its leading blanks and the rest, and both are dealt with. -/
theorem splitBlanks (content : List Char) {onBlanks : Builder → List Char → Builder}
    {next : Builder → Token → Builder}
    (hblanks : ∀ {blanks}, '\x00' ∉ blanks → (onBlanks b blanks).Outside k)
    (hnext : ∀ {b' rest}, b'.Outside k → (next b' (.text rest)).Sound k) :
    (b.splitBlanks content onBlanks next).Sound k := by
  have hb := hblanks (nul_not_mem_blanks content)
  unfold Builder.splitBlanks
  dsimp only
  split
  · exact hb.sound
  · exact hnext hb

theorem afterHead (h : b.Outside k) (ht : t.MadeOf k) : (b.afterHead t).Sound k := by
  have hbody := h.openBody (k.tag_of_bare (by decide))
  cases t with
  | doctype d => exact h.sound
  | comment content => exact (h.insertNode (.comment content)).sound
  | text content =>
    simp only [Builder.afterHead]
    refine splitBlanks content h.insertText fun hb => ?_
    exact (hb.openBody (k.tag_of_bare (by decide))).inBody trivial
  | opening name attributes selfClosing =>
    have htag : k.tag ⟨name, attributes, .page⟩ := k.tag_of_start ht .page
    simp only [Builder.afterHead]
    split_ifs
    · exact (h.addAttributes 0 ht).sound
    · exact (h.openBody (k.tag_of_implied ht (by decide))).sound
    · exact h.sound
    · split
      · exact hbody.inBody ht
      · next opened hhead =>
        -- what belongs into the head goes there, also when the head is closed
        split
        · have hopened := h.headElement? htag hhead
          refine ⟨hopened.toMadeOf.onStack ?_, hopened.text⟩
          have hstack := hopened.toOpen.stack
          split
          · next f rest hs =>
            rw [hs] at hstack
            obtain ⟨hf, hrest⟩ := List.forall_mem_cons.1 hstack
            exact List.forall_mem_cons.2 ⟨hf, hrest⟩
          · exact List.forall_mem_nil _
        · exact Outside.sound (h.onStack fun hs => hs.attach (.empty htag) .head)
  | closing name =>
    simp only [Builder.afterHead]
    split
    · exact hbody.inBody ht
    · exact h.sound

theorem inHead (h : b.Outside k) (ht : t.MadeOf k) : (b.inHead t).Sound k := by
  have hafter := h.closeHead.afterHead ht
  cases t with
  | doctype d => exact h.sound
  | comment content => exact (h.insertNode (.comment content)).sound
  | text content =>
    simp only [Builder.inHead]
    refine splitBlanks content h.insertText fun hb => ?_
    exact hb.closeHead.afterHead trivial
  | opening name attributes selfClosing =>
    have htag : k.tag ⟨name, attributes, .page⟩ := k.tag_of_start ht .page
    simp only [Builder.inHead]
    split_ifs
    · exact (h.addAttributes 0 ht).sound
    · exact h.sound
    · cases hhead : b.headElement? ⟨name, attributes, .page⟩ with
      | none => exact hafter
      | some b' => exact h.headElement? htag hhead
  | closing name =>
    simp only [Builder.inHead]
    split_ifs
    · exact h.closeHead.sound
    · exact hafter
    · exact h.sound

theorem beforeHead (h : b.Outside k) (ht : t.MadeOf k) : (b.beforeHead t).Sound k := by
  have hhead := (h.openHead (k.tag_of_bare (by decide))).inHead ht
  cases t with
  | doctype d => exact h.sound
  | comment content => exact (h.insertNode (.comment content)).sound
  | text content =>
    simp only [Builder.beforeHead]
    refine splitBlanks content (fun _ => h) fun hb => ?_
    exact (hb.openHead (k.tag_of_bare (by decide))).inHead trivial
  | opening name attributes selfClosing =>
    simp only [Builder.beforeHead]
    split_ifs
    · exact (h.addAttributes 0 ht).sound
    · exact (h.openHead (k.tag_of_implied ht (by decide))).sound
    · exact hhead
  | closing name =>
    simp only [Builder.beforeHead]
    split
    · exact hhead
    · exact h.sound

theorem beforeRoot (h : b.Outside k) (ht : t.MadeOf k) : (b.beforeRoot t).Sound k := by
  have hroot := (h.openRoot (k.tag_of_bare (by decide))).beforeHead ht
  cases t with
  | doctype d => exact h.sound
  | comment content => exact Outside.sound ⟨⟨h.toOpen, h.behindBody⟩, h.mode⟩
  | text content =>
    simp only [Builder.beforeRoot]
    refine splitBlanks content (fun _ => h) fun hb => ?_
    exact (hb.openRoot (k.tag_of_bare (by decide))).beforeHead trivial
  | opening name attributes selfClosing =>
    simp only [Builder.beforeRoot]
    split
    · exact (h.openRoot (k.tag_of_implied ht (by decide))).sound
    · exact hroot
  | closing name =>
    simp only [Builder.beforeRoot]
    split
    · exact hroot
    · exact h.sound

/-- A page that declares no kind goes on before its root. -/
theorem undeclared (h : b.Outside k) :
    ({ b with isOld := true, mode := .beforeRoot } : Builder).Outside k :=
  ⟨⟨h.toOpen, h.behindBody⟩, by simp⟩

theorem initial (h : b.Outside k) (ht : t.MadeOf k) : (b.initial t).Sound k := by
  cases t with
  | doctype d => exact Outside.sound ⟨⟨h.toOpen, h.behindBody⟩, by simp [Builder.initial]⟩
  | comment content => exact Outside.sound ⟨⟨h.toOpen, h.behindBody⟩, h.mode⟩
  | text content =>
    simp only [Builder.initial]
    refine splitBlanks content (fun _ => h) fun hb => ?_
    exact hb.undeclared.beforeRoot trivial
  | opening name attributes selfClosing => exact h.undeclared.beforeRoot ht
  | closing name => exact h.undeclared.beforeRoot ht

theorem afterBody (h : b.Outside k) (ht : t.MadeOf k) : (b.afterBody t).Sound k := by
  have hagain := (h.withMode (by decide : Mode.inBody ≠ .inText)).inBody ht
  cases t with
  | doctype d => exact h.sound
  | comment content =>
    exact Outside.sound ⟨⟨h.toOpen, List.forall_mem_cons.2 ⟨.comment content, h.behindBody⟩⟩,
      h.mode⟩
  | text content =>
    simp only [Builder.afterBody]
    split
    · exact h.inBody ht
    · exact hagain
  | opening name attributes selfClosing =>
    simp only [Builder.afterBody]
    split
    · exact h.inBody ht
    · exact hagain
  | closing name =>
    simp only [Builder.afterBody]
    split
    · exact (h.withMode (by decide)).sound
    · exact hagain

theorem afterRoot (h : b.Outside k) (ht : t.MadeOf k) : (b.afterRoot t).Sound k := by
  have hagain := (h.withMode (by decide : Mode.inBody ≠ .inText)).inBody ht
  cases t with
  | doctype d => exact h.sound
  | comment content => exact Outside.sound ⟨⟨h.toOpen, h.behindBody⟩, h.mode⟩
  | text content =>
    simp only [Builder.afterRoot]
    split
    · exact h.inBody ht
    · exact hagain
  | opening name attributes selfClosing =>
    simp only [Builder.afterRoot]
    split
    · exact h.inBody ht
    · exact hagain
  | closing name => exact hagain

end Outside

/-! ### From the first token to the last -/

/-- Where text ends, the page goes on outside of it. -/
theorem Sound.endTextElement (h : b.Sound k) (hmode : b.mode = .inText) :
    ({ b.onStack Stack.pop with mode := b.resume, textReading := none } : Builder).Outside k :=
  ⟨⟨(h.toMadeOf.onStack h.toOpen.stack.pop).toOpen, h.behindBody⟩, (h.text hmode).2⟩

theorem Sound.inText (h : b.Sound k) (hmode : b.mode = .inText) (ht : t.TextNulFree) :
    (b.inText t).Sound k := by
  cases t with
  | doctype d => exact h
  | comment content => exact h
  | text content =>
    refine ⟨h.toMadeOf.insertText ht, ?_⟩
    unfold Builder.inText Builder.insertText
    dsimp only
    split
    · exact h.text
    · exact h.text
  | opening name attributes selfClosing => exact h
  | closing name => exact (h.endTextElement hmode).sound

theorem Sound.byMode (h : b.Sound k) (ht : t.MadeOf k) (htext : b.mode = .inText → t.TextNulFree) :
    (b.byMode t).Sound k := by
  by_cases hmode : b.mode = .inText
  · have hin : b.byMode t = b.inText t := by rw [Builder.byMode, hmode]
    exact hin ▸ h.inText hmode (htext hmode)
  · have hout : b.Outside k := ⟨h.toMadeOf, hmode⟩
    unfold Builder.byMode
    split
    · exact hout.initial ht
    · exact hout.beforeRoot ht
    · exact hout.beforeHead ht
    · exact hout.inHead ht
    · exact hout.afterHead ht
    · exact hout.inBody ht
    · next hin => exact absurd hin hmode
    · exact hout.inTable ht
    · exact hout.inCaption ht
    · exact hout.inColumns ht
    · exact hout.inTableBody ht
    · exact hout.inRow ht
    · exact hout.inCell ht
    · exact hout.afterBody ht
    · exact hout.afterRoot ht

theorem Sound.onStack (h : b.Sound k) {f : Stack → Stack} (hf : (f b.stack).MadeOf k) :
    (b.onStack f).Sound k :=
  ⟨h.toMadeOf.onStack hf, h.text⟩

theorem Sound.insertNode (h : b.Sound k) {n : Node} (hn : n.MadeOf k) : (b.insertNode n).Sound k :=
  ⟨h.toMadeOf.insertNode hn, h.text⟩

theorem Sound.inForeign (h : b.Sound k) (ht : t.MadeOf k) : (b.inForeign t).Sound k := by
  cases t with
  | doctype d => exact h
  | comment content => exact h.insertNode (.comment content)
  | text content =>
    simp only [Builder.inForeign, Builder.insertText]
    split
    · exact h
    · exact h.insertNode (.text (nul_not_mem_withoutNul content))
  | opening name attributes selfClosing =>
    simp only [Builder.inForeign]
    split_ifs
    · exact (h.onStack (h.toOpen.stack.popMany _)).byMode ht fun _ => trivial
    · exact h.insertNode (.empty (k.tag_of_start ht _))
    · exact ⟨h.toMadeOf.onOpen (h.toOpen.push (k.tag_of_start ht _) _), h.text⟩
  | closing name =>
    simp only [Builder.inForeign]
    split
    · exact h
    · split_ifs
      · exact h.onStack (h.toOpen.stack.popMany _)
      · exact h.byMode ht fun _ => trivial

theorem madeOf_of_withoutNewline {t' : Token} (h : withoutNewline t = some t') (ht : t.MadeOf k) :
    t'.MadeOf k ∧ (t.TextNulFree → t'.TextNulFree) := by
  unfold withoutNewline at h
  split at h
  · cases h
  · obtain rfl := Option.some.inj h
    exact ⟨trivial, fun htext hmem => htext (List.mem_cons_of_mem _ hmem)⟩
  · obtain rfl := Option.some.inj h
    exact ⟨ht, id⟩

/-- **A step keeps the page sound,** if the text of the token fits to where the page is. -/
theorem Sound.step (h : b.Sound k) (ht : t.MadeOf k) (htext : b.mode = .inText → t.TextNulFree) :
    (b.step t).Sound k := by
  have hkept : ({ b with dropsNewline := false } : Builder).Sound k :=
    ⟨⟨h.toOpen, h.behindBody⟩, h.text⟩
  have htake : ∀ t' : Token, t'.MadeOf k → (t.TextNulFree → t'.TextNulFree) →
      (if ({ b with dropsNewline := false } : Builder).isInForeign t' then
        ({ b with dropsNewline := false } : Builder).inForeign t'
      else ({ b with dropsNewline := false } : Builder).byMode t').Sound k := by
    intro t' ht' hsame
    split
    · exact hkept.inForeign ht'
    · exact hkept.byMode ht' fun hmode => hsame (htext hmode)
  unfold Builder.step
  dsimp only
  split
  · exact hkept
  · next t' hdropped =>
    split at hdropped
    · obtain ⟨ht', hsame⟩ := madeOf_of_withoutNewline hdropped ht
      exact htake t' ht' hsame
    · obtain rfl := Option.some.inj hdropped
      exact htake t ht id

/-- **Reading keeps the page sound,** token by token, if all start tags that it can be read as are
of the stock. -/
theorem Sound.run (h : b.Sound k) (page : List Char) (hpage : k.Covers page) :
    (b.run page).Sound k := by
  fun_induction Builder.run b page with
  | case1 b => exact h
  | case2 b c rest tail hnext ih =>
    have htail := Token.next_isSuffix b.reading c rest
    rw [hnext] at htail
    exact ih h (hpage.of_suffix htail)
  | case3 b c rest t tail hnext ih =>
    have htail := Token.next_isSuffix b.reading c rest
    rw [hnext] at htail
    refine ih (h.step (hpage.madeOf_next (congrArg Prod.fst hnext)) fun hmode => ?_)
      (hpage.of_suffix htail)
    refine Token.textNulFree_next (fun foreign => ?_) (congrArg Prod.fst hnext)
    obtain ⟨⟨r, hr, hmarkup⟩, -⟩ := h.text hmode
    rw [reading, hr]
    exact hmarkup foreign

theorem sound_start : ({} : Builder).Sound k := by
  refine Outside.sound ⟨⟨⟨?_, ?_⟩, ?_⟩, by decide⟩
  · exact List.forall_mem_nil _
  · exact List.forall_mem_nil _
  · exact List.forall_mem_nil _

theorem Sound.endText (h : b.Sound k) : b.endText.Outside k := by
  unfold Builder.endText
  split
  · next hmode => exact h.endTextElement hmode
  · next hmode => exact ⟨h.toMadeOf, hmode⟩

theorem Outside.complete (h : b.Outside k) : b.complete.Outside k := by
  have hold : ({ b with isOld := true } : Builder).Outside k :=
    ⟨⟨h.toOpen, h.behindBody⟩, h.mode⟩
  have hroot := k.tag_of_bare (by decide : "html" ∈ impliedNames)
  have hhead := k.tag_of_bare (by decide : "head" ∈ impliedNames)
  have hbody := k.tag_of_bare (by decide : "body" ∈ impliedNames)
  unfold Builder.complete
  split
  · exact ((hold.openRoot hroot).openHead hhead).closeHead.openBody hbody
  · exact ((h.openRoot hroot).openHead hhead).closeHead.openBody hbody
  · exact (h.openHead hhead).closeHead.openBody hbody
  · exact h.closeHead.openBody hbody
  · exact h.openBody hbody
  · exact h

end Builder

/-- **Parsed pages are built of their start tags:** the tags of a page are of a stock that has all
start tags that the page can be read as. -/
theorem Page.madeOf_read {text : List Char} (htext : k.Covers (Text.unifyNewlines text)) :
    (Page.read text).root.MadeOf k := by
  have hend := ((Builder.sound_start (k := k)).run _ htext).endText.complete
  unfold Page.read Builder.finish
  dsimp only
  split
  · exact .empty (k.tag_of_bare (by decide))
  · next f rest hstack =>
    have hopen := hend.toOpen.stack.popMany
      (((({} : Builder).run (Text.unifyNewlines text)).endText.complete).stack.length - 1)
    rw [hstack] at hopen
    obtain ⟨htag, hchildren⟩ := hopen f List.mem_cons_self
    refine .element htag fun n hn => ?_
    rcases List.mem_append.1 hn with hn | hn
    · exact hchildren n (List.mem_reverse.1 hn)
    · exact hend.behindBody n (List.mem_reverse.1 hn)

/-! ## Values -/

/-- Tags without U+0000. -/
def Stock.nulFree : Stock where
  tag := Tag.NulFree
  start _ attributes := NulFreeValues attributes
  tag_of_start h space := Foreign.nulFree_tag h space _
  tag_of_implied h _ := h
  tag_of_bare _ := nulFreeValues_nil
  tag_of_more htag h hmore := List.forall_mem_append.2 ⟨htag, fun a ha => h a (hmore ha)⟩

theorem Node.MadeOf.nulFree {n : Node} (h : n.MadeOf Stock.nulFree) : n.NulFree := by
  induction h with
  | text h => exact .text h
  | comment content => exact .comment content
  | element htag _ ih => exact .element htag ih

/-- **Parsed pages have no U+0000,** neither in a text nor in an attribute's value. -/
theorem Page.nulFree_read (text : List Char) : (Page.read text).root.NulFree :=
  (Page.madeOf_read fun _ _ _ _ _ h => Token.nulFreeValues_of_opening h).nulFree

end Html
end DocHighlighter
