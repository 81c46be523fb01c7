/-
# What is written reads back

`Written.run`: reading a written text in a body adds the nodes that it writes, and
goes on with the rest of the page.  Elements are numbered while they are read, so
only the number of the next element differs.

The induction is on how the text is written.  An element is opened, its content is
read inside it, and its end tag puts it, with that content, among the children of
the element around it.
-/

import DocHighlighter.Proofs.Html.Written

namespace DocHighlighter
namespace Html

open Token (WrittenTag WrittenAttribute closingText nameOf EndsText)

namespace Builder

variable {b : Builder} {k : Bool}

theorem run_opening {foreign : Bool} (hb : b.reading = .markup foreign) {t : WrittenTag}
    (ht : t.IsPlain) (rest : List Char) :
    b.run ('<' :: (t.text ++ rest)) =
      (b.step (.opening (nameOf t.name) t.readAttributes t.selfClosing)).run rest :=
  run_of_next (by rw [hb]; exact Token.next_opening ht rest)

theorem run_closing {foreign : Bool} (hb : b.reading = .markup foreign) {name : List Char}
    (hname : Token.IsTagName name) (rest : List Char) :
    b.run ('<' :: (closingText name ++ rest)) = (b.step (.closing (nameOf name))).run rest :=
  run_of_next (by rw [hb]; exact Token.next_closing hname rest)

theorem pop_opened (b : Builder) (tag : Tag) {ns : List Node} (hns : Node.Separate ns) (id : Nat) :
    (((b.opened tag).add ns).withNext id).onStack Stack.pop =
      (b.add [.element tag ns]).withNext id := by
  have hpop := pop_add_opened b tag hns
  have hnext : ∀ c : Builder, (c.withNext id).onStack Stack.pop =
      (c.onStack Stack.pop).withNext id := fun c => rfl
  rw [hnext, hpop, withNext_withNext]

/-! ## Shapes -/

/-- The page is in a drawing, between its shapes. -/
structure InDrawing (b : Builder) : Prop where
  textReading : b.textReading = none
  dropsNewline : b.dropsNewline = false
  outsideTable : b.outsideTable = false
  top : ∃ f s, b.stack = f :: s ∧ f.tag.space = .drawing ∧ f.tag.name = "svg"

theorem InDrawing.add (h : b.InDrawing) (ns : List Node) (id : Nat) :
    ((b.add ns).withNext id).InDrawing := by
  obtain ⟨f, s, hs, hspace, hname⟩ := h.top
  exact ⟨h.textReading, h.dropsNewline, h.outsideTable,
    { f with children := ns.foldl (fun cs n => push n cs) f.children }, s, stack_add hs ns, hspace,
    hname⟩

theorem InDrawing.reading (h : b.InDrawing) : b.reading = .markup true := by
  obtain ⟨f, s, hs, hspace, -⟩ := h.top
  simp [Builder.reading, h.textReading, hs, isForeign, hspace]

/-- In a drawing, a start tag of a shape puts the shape in, or opens it. -/
theorem InDrawing.step_opening (h : b.InDrawing) (attributes : List Attribute) :
    b.step (.opening "path" attributes true) =
        b.add [.element (Foreign.tag .drawing "path" attributes) []] ∧
      b.step (.opening "path" attributes false) =
        b.opened (Foreign.tag .drawing "path" attributes) := by
  obtain ⟨f, s, hs, hspace, hname⟩ := h.top
  have hkeep : { b with dropsNewline := false } = b := by
    rw [← h.dropsNewline]
  have hholds : f.holdsPage = false := by
    simp [Frame.holdsPage, hspace, hname]
  have hstep : ∀ self, b.step (.opening "path" attributes self) =
      b.inForeign (.opening "path" attributes self) := by
    intro self
    have hforeign : b.isInForeign (.opening "path" attributes self) = true := by
      simp [isInForeign, hs, isForeign, hspace, hholds]
    simp only [step, h.dropsNewline, Bool.false_eq_true, if_false, hkeep, hforeign, if_true]
  have hends : Foreign.endsForeign "path" attributes = false := by
    simp [Foreign.endsForeign, Foreign.endingNames]
  have hhome : home b.outsideTable b.stack = .within := by
    simp [home, hs, h.outsideTable]
  refine ⟨?_, ?_⟩
  · have hstack : b.stack.attach (.element (Foreign.tag .drawing "path" attributes) [])
        (home b.outsideTable b.stack) =
        b.stack.attachWithin (.element (Foreign.tag .drawing "path" attributes) []) := by
      rw [hhome]
      rfl
    rw [hstep]
    simp only [inForeign, hends, Bool.false_eq_true, if_false, hs, hspace, if_true]
    simp only [insertNode, onStack, hstack, Builder.add, List.foldl_cons, List.foldl_nil]
  · rw [hstep]
    simp only [inForeign, hends, Bool.false_eq_true, if_false, hs, hspace]
    simp only [insert, onOpen, Open.push, hhome, opened]

theorem popThrough_top {p : Frame → Bool} {f : Frame} {s : Stack} (h : p f = true) :
    Stack.popThrough p (f :: s) = Stack.pop (f :: s) := by
  simp [Stack.popThrough, h, Stack.popMany]

/-- In a drawing, the end tag of the innermost element closes it. -/
theorem step_closing_drawing {f : Frame} {s : Stack} {name : String} (hs : b.stack = f :: s)
    (hdrops : b.dropsNewline = false) (hspace : f.tag.space = .drawing)
    (hname : f.tag.name.toList.map Char.toLower = name.toList) :
    b.step (.closing name) = b.onStack Stack.pop := by
  have hkeep : { b with dropsNewline := false } = b := by
    rw [← hdrops]
  have hforeign : isForeign f = true := by
    simp [isForeign, hspace]
  have hin : b.isInForeign (.closing name) = true := by
    simp [isInForeign, hs, hforeign]
  have hfind : b.stack.find? (fun g => !isForeign g ||
      g.tag.name.toList.map Char.toLower == name.toList) = some f := by
    rw [hs, List.find?_cons_of_pos]
    simp [hname]
  have hstep : b.step (.closing name) = b.onStack (·.popThrough (·.id == f.id)) := by
    simp only [step, hdrops, Bool.false_eq_true, if_false, hkeep, hin, if_true, inForeign, hfind,
      hforeign]
  have hpop : Stack.popThrough (·.id == f.id) b.stack = Stack.pop b.stack := by
    rw [hs]
    exact popThrough_top (beq_self_eq_true f.id)
  rw [hstep]
  simp only [onStack, hpop]

theorem elementText_append (t : WrittenTag) (inner rest page : List Char) :
    elementText t inner ++ rest ++ page =
      '<' :: (t.text ++ (inner ++ '<' :: (closingText t.name ++ (rest ++ page)))) := by
  simp [elementText]

/-- Reading written shapes puts them into the drawing. -/
theorem run_of_writtenShapes {text : List Char} {ns : List Node} (h : WrittenShapes text ns)
    (hb : b.InDrawing) (page : List Char) :
    ∃ id, b.run (text ++ page) = ((b.add ns).withNext id).run page := by
  induction h generalizing b with
  | nil => exact ⟨b.nextId, by rw [add_nil, withNext_nextId]; rfl⟩
  | @selfClosing t rest ms ht hself hname _ ih =>
    obtain ⟨id, hrest⟩ := ih (hb.add [.element (Foreign.tag .drawing "path" t.readAttributes) []]
      b.nextId)
    refine ⟨id, ?_⟩
    have hstep := (hb.step_opening t.readAttributes).1
    rw [List.cons_append, List.append_assoc, run_opening hb.reading ht, hself, hname, hstep]
    rw [add_withNext, add_add, withNext_withNext] at hrest
    exact hrest
  | @closed t rest ms ht hself hname _ ih =>
    obtain ⟨id, hrest⟩ := ih (hb.add [.element (Foreign.tag .drawing "path" t.readAttributes) []]
      (b.nextId + 1))
    refine ⟨id, ?_⟩
    have hopens := (hb.step_opening t.readAttributes).2
    have hreading : (b.opened (Foreign.tag .drawing "path" t.readAttributes)).reading =
        .markup true := by
      have htext : (b.opened (Foreign.tag .drawing "path" t.readAttributes)).textReading = none :=
        hb.textReading
      simp only [Builder.reading, htext]
      rfl
    have hlower : (Foreign.capitalised Foreign.elementNames "path").toList.map Char.toLower =
        "path".toList := by decide
    have hcloses : (b.opened (Foreign.tag .drawing "path" t.readAttributes)).step
        (.closing "path") =
        (b.opened (Foreign.tag .drawing "path" t.readAttributes)).onStack Stack.pop :=
      step_closing_drawing rfl hb.dropsNewline rfl hlower
    have hpop := pop_add_opened b (Foreign.tag .drawing "path" t.readAttributes)
      (List.IsChain.nil : Node.Separate [])
    rw [elementText_append, run_opening hb.reading ht, hself, hname, hopens, List.nil_append,
      run_closing hreading ht.name, hname, hcloses]
    rw [add_nil] at hpop
    rw [add_withNext, add_add, withNext_withNext] at hrest
    rw [hpop]
    exact hrest

/-! ## Elements of the body -/

theorem closeWithin_top {f : Frame} {s : Stack} {stops target : Frame → Bool}
    (hs : b.stack = f :: s) (htarget : target f = true) :
    b.closeWithin stops target = b.onStack Stack.pop := by
  have hopen : b.isOpenWithin stops target = true := by
    simp [isOpenWithin, hs, Stack.isOpenWithin, htarget]
  have hpop : Stack.popThrough target b.stack = Stack.pop b.stack := by
    rw [hs]
    exact popThrough_top htarget
  simp only [closeWithin, hopen, if_true, onStack, hpop]

theorem close_top {f : Frame} {s : Stack} {name : String} (hs : b.stack = f :: s)
    (hname : f.isPage name = true) : b.onOpen (·.close name) = b.onStack Stack.pop := by
  have hfind : b.stack.find? (fun g => g.isPage name || g.isSpecial) = some f := by
    rw [hs, List.find?_cons_of_pos]
    simp [hname]
  have hpop : Stack.popThrough (·.id == f.id) b.stack = Stack.pop b.stack := by
    rw [hs]
    exact popThrough_top (beq_self_eq_true f.id)
  simp only [onOpen, Open.close, hfind, hname, if_true, hpop, onStack]

theorem step_dropsNewline {t : Token} (ht : withoutNewline t = some t)
    (hdrops : b.dropsNewline = false) :
    ({ b with dropsNewline := true } : Builder).step t = b.step t := by
  simp only [step, hdrops, ht, if_true, Bool.false_eq_true, if_false]

/-- A newline that does not count makes no difference before a tag. -/
theorem run_dropsNewline (hb : b.InBody k) {text : List Char} {ns : List Node}
    (h : Written k text ns) (hns : NoTextFirst ns) {name : List Char}
    (hname : Token.IsTagName name) (page : List Char) :
    ({ b with dropsNewline := true } : Builder).run
        (text ++ '<' :: (closingText name ++ page)) =
      b.run (text ++ '<' :: (closingText name ++ page)) := by
  have hreading : ({ b with dropsNewline := true } : Builder).reading = .markup false := hb.reading
  rcases h.eq_nil_or_tag hns with rfl | ⟨t, more, ht, rfl⟩
  · rw [List.nil_append, run_closing hreading hname, run_closing hb.reading hname,
      step_dropsNewline rfl hb.dropsNewline]
  · rw [List.cons_append, List.append_assoc, run_opening hreading ht, run_opening hb.reading ht,
      step_dropsNewline rfl hb.dropsNewline]

/-- Where no formatting goes on, a formatting element is opened, and then goes on. -/
def formatted (b : Builder) (tag : Tag) : Builder :=
  { b.opened tag with formatting := [.element b.nextId tag] }

theorem InBody.insertFormat_eq (h : b.InBody false) (tag : Tag) :
    b.insertFormat tag = b.formatted tag := by
  simp only [insertFormat, onOpen, Open.pushFormat, h.unformatted rfl, h.home_eq, formatted]
  rfl

theorem InBody.formatted (h : b.InBody false) {tag : Tag} (hspace : tag.space = .page)
    (hp : tag.name ≠ "p") : (b.formatted tag).InBody true := by
  have hopened := h.opened hspace hp
  refine ⟨h.mode, h.textReading, h.dropsNewline, h.outsideTable, ⟨_, _, rfl, hspace⟩,
    hopened.noParagraph, ?_, by simp⟩
  intro e he
  obtain rfl := List.mem_singleton.1 he
  have hopen : ((b.formatted tag).stack.any (·.id == b.nextId)) = true := by
    simp [Builder.formatted, Builder.opened]
  exact hopen

/-- Ending a formatting element that is the innermost element closes it and forgets it. -/
theorem adopt_top {f : Frame} {s : Stack} {name : String} {tag : Tag} (hs : b.stack = f :: s)
    (hname : f.isPage name = true) (htag : tag.name = name)
    (hformatting : b.formatting = [.element f.id tag]) :
    b.adopt name = { b.onStack Stack.pop with formatting := [] } := by
  have hadopt : Open.adopt (home b.outsideTable) name b.toOpen =
      { b.toOpen with stack := b.stack.pop, formatting := [] } := by
    simp [Open.adopt, hs, hname, hformatting, Format.hasId, Open.adoptMany, Format.isMark,
      Format.hasName, htag, Open.forget, Stack.popMany]
  simp only [adopt, onOpen, hadopt, onStack]

theorem pop_formatted (h : b.InBody false) (tag : Tag) (htag : tag.isPage "code" = true)
    {ns : List Node} (hns : Node.Separate ns) (id : Nat) :
    (((b.formatted tag).add ns).withNext id).closeInBody "code" =
      (b.add [.element tag ns]).withNext id := by
  have hname : tag.name = "code" := by
    simp only [Tag.isPage, Bool.and_eq_true, beq_iff_eq] at htag
    exact htag.2
  have hcode : ∀ c : Builder, c.closeInBody "code" = c.adopt "code" := fun c => rfl
  have hstack := stack_add_opened b tag ns
  have hadopt := adopt_top (b := ((b.formatted tag).add ns).withNext id) hstack htag hname rfl
  have hpop := pop_opened b tag hns id
  have hplain : b = { b with formatting := [] } := by
    rw [← h.unformatted rfl]
  have hleft :
      { (((b.formatted tag).add ns).withNext id).onStack Stack.pop with formatting := [] } =
      { (((b.opened tag).add ns).withNext id).onStack Stack.pop with formatting := [] } := rfl
  rw [hcode, hadopt, hleft, hpop, hplain]
  rfl

theorem openInBody_pre (h : b.InBody k) (attributes : List Attribute) :
    b.openInBody "pre" attributes false =
      { b.opened ⟨"pre", attributes, .page⟩ with dropsNewline := true } := by
  rw [← h.insert_eq]
  have hopen : b.openInBody "pre" attributes false =
      { b.closeParagraph.insert ⟨"pre", attributes, .page⟩ with dropsNewline := true } := rfl
  rw [hopen, h.closeParagraph_eq]

theorem openInBody_code (h : b.InBody false) (attributes : List Attribute) :
    b.openInBody "code" attributes false = b.formatted ⟨"code", attributes, .page⟩ := by
  have hopen : b.openInBody "code" attributes false =
      b.restart.insertFormat ⟨"code", attributes, .page⟩ := rfl
  rw [hopen, h.restart_eq, h.insertFormat_eq]

theorem openInBody_svg (h : b.InBody k) (attributes : List Attribute) :
    b.openInBody "svg" attributes false = b.opened (Foreign.tag .drawing "svg" attributes) := by
  have hopen : b.openInBody "svg" attributes false =
      b.restart.insert (Foreign.tag .drawing "svg" attributes) := rfl
  rw [hopen, h.restart_eq, h.insert_eq]

theorem inDrawing_opened (h : b.InBody k) (attributes : List Attribute) :
    (b.opened (Foreign.tag .drawing "svg" attributes)).InDrawing := by
  refine ⟨h.textReading, h.dropsNewline, h.outsideTable, _, _, rfl, rfl, ?_⟩
  have hname : Foreign.capitalised Foreign.elementNames "svg" = "svg" := by decide
  exact hname

/-- In a body, a text goes behind the children of the innermost element. -/
theorem InBody.inBody_text (h : b.InBody k) {s : List Char} (hne : s ≠ []) (hnul : '\x00' ∉ s) :
    b.inBody (.text s) = b.add [.text s] := by
  have hfilter : s.filter (· != '\x00') = s := by
    rw [List.filter_eq_self]
    rintro c hc
    rw [bne_iff_ne]
    rintro rfl
    exact hnul hc
  have hempty : s.isEmpty = false := by simpa using hne
  simp only [inBody, hfilter, hempty, Bool.false_eq_true, if_false, h.restart_eq, insertText,
    h.insertNode_eq]

/-- What follows an element is read behind it. -/
theorem run_behind {e : Node} {rest page : List Char} {ms : List Node} {i : Nat}
    (hrest : ∃ id, ((b.add [e]).withNext i).run (rest ++ page) =
      ((((b.add [e]).withNext i).add ms).withNext id).run page) :
    ∃ id, ((b.add [e]).withNext i).run (rest ++ page) =
      ((b.add (e :: ms)).withNext id).run page := by
  obtain ⟨id, hrest⟩ := hrest
  refine ⟨id, ?_⟩
  rw [add_withNext, add_add, withNext_withNext] at hrest
  exact hrest

/-- **What is written reads back:** reading a written text in a body adds the nodes that it
writes. -/
theorem run_of_written {text : List Char} {ns : List Node} (h : Written k text ns) :
    ∀ {b : Builder}, b.InBody k → ∀ {page : List Char}, EndsText page →
      ∃ id, b.run (text ++ page) = ((b.add ns).withNext id).run page := by
  induction h with
  | nil => exact fun {b} _ _ _ => ⟨b.nextId, by rw [add_nil, withNext_nextId]; rfl⟩
  | @text k w s rest ms hw hs hne hnul hms hrest ih =>
    intro b hb page hpage
    obtain ⟨c, run, rfl⟩ : ∃ c run, w = c :: run := by
      cases w with
      | nil => exact absurd (Reference.decode_nil ▸ hs).symm hne
      | cons c run => exact ⟨c, run, rfl⟩
    have htoken : Token.next b.reading c (run ++ (rest ++ page)) =
        (some (.text s), rest ++ page) := by
      rw [hb.reading, Token.next_text hw (hrest.endsText hms hpage), hs]
    rw [List.append_assoc, List.cons_append, run_of_next htoken, hb.step_eq,
      hb.inBody_text hne hnul]
    exact run_behind (ih (hb.add [.text s] b.nextId) hpage)
  | @plain k t inner rest ns ms ht hself hname hinner hrest ihinner ihrest =>
    intro b hb page hpage
    have hopened : (b.opened ⟨nameOf t.name, t.readAttributes, .page⟩).InBody k :=
      hb.opened rfl hname.notParagraph
    obtain ⟨i, hi⟩ := ihinner hopened (endsText_closing ht.name.ne_nil (rest ++ page))
    have hin := hopened.add ns i
    have hcloses := hname.closes
      (b := ((b.opened ⟨nameOf t.name, t.readAttributes, .page⟩).add ns).withNext i)
      (stack_add_opened ..) (by simp [Frame.isPage, Tag.isPage])
    rw [elementText_append, run_opening hb.reading ht, hself, hb.step_eq, inBody,
      hname.opens _ hb, hb.insert_eq, hi, run_closing hin.reading ht.name, hin.step_eq, inBody,
      hcloses, pop_opened b _ hinner.separate]
    exact run_behind (ihrest (hb.add _ i) hpage)
  | @pre k t inner rest ns ms ht hself hname hns hinner hrest ihinner ihrest =>
    intro b hb page hpage
    have hopened : (b.opened ⟨"pre", t.readAttributes, .page⟩).InBody k :=
      hb.opened rfl (by simp)
    obtain ⟨i, hi⟩ := ihinner hopened (endsText_closing ht.name.ne_nil (rest ++ page))
    have hin := hopened.add ns i
    have hcloses : (((b.opened ⟨"pre", t.readAttributes, .page⟩).add ns).withNext i).closeInBody
        "pre" = (((b.opened ⟨"pre", t.readAttributes, .page⟩).add ns).withNext i).onStack
          Stack.pop :=
      closeWithin_top (stack_add_opened ..) (by simp [Frame.isPage, Tag.isPage])
    rw [elementText_append, run_opening hb.reading ht, hself, hname, hb.step_eq, inBody,
      openInBody_pre hb, run_dropsNewline hopened hinner hns ht.name, hi,
      run_closing hin.reading ht.name, hin.step_eq, hname, inBody, hcloses,
      pop_opened b _ hinner.separate]
    exact run_behind (ihrest (hb.add _ i) hpage)
  | @code t inner rest ns ms ht hself hname hinner hrest ihinner ihrest =>
    intro b hb page hpage
    have hopened : (b.formatted ⟨"code", t.readAttributes, .page⟩).InBody true :=
      hb.formatted rfl (by simp)
    obtain ⟨i, hi⟩ := ihinner hopened (endsText_closing ht.name.ne_nil (rest ++ page))
    have hin := hopened.add ns i
    rw [elementText_append, run_opening hb.reading ht, hself, hname, hb.step_eq, inBody,
      openInBody_code hb, hi, run_closing hin.reading ht.name, hin.step_eq, hname, inBody,
      pop_formatted hb _ rfl hinner.separate]
    exact run_behind (ihrest (hb.add _ i) hpage)
  | @drawing k t inner rest ns ms ht hself hname hinner hrest ihrest =>
    intro b hb page hpage
    have hdrawing := inDrawing_opened hb t.readAttributes
    obtain ⟨i, hi⟩ := run_of_writtenShapes hinner hdrawing
      ('<' :: (closingText t.name ++ (rest ++ page)))
    have hin := hdrawing.add ns i
    have hlower : (Foreign.capitalised Foreign.elementNames "svg").toList.map Char.toLower =
        "svg".toList := by decide
    have hcloses : (((b.opened (Foreign.tag .drawing "svg" t.readAttributes)).add ns).withNext
        i).step (.closing "svg") =
        (((b.opened (Foreign.tag .drawing "svg" t.readAttributes)).add ns).withNext i).onStack
          Stack.pop :=
      step_closing_drawing (stack_add_opened ..) hin.dropsNewline rfl hlower
    rw [elementText_append, run_opening hb.reading ht, hself, hname, hb.step_eq, inBody,
      openInBody_svg hb, hi, run_closing hin.reading ht.name, hname, hcloses,
      pop_opened b _ hinner.separate]
    exact run_behind (ihrest (hb.add _ i) hpage)

end Builder
end Html
end DocHighlighter
