/-
# Content that is read as it stands

Most content of a block is read back from its own markup: text, comments, and elements that start
where their start tag stands and end where their end tag stands (`Node.Regular`).  What elements
do depends on their names (`NameRule`).

| rule | what is asked for |
|---|---|
| plain | nothing: the element is opened and closed, and nothing else happens |
| preformatted | nothing, but a newline at the start is dropped |
| formatting | that no element of its name is open: it would go on when that one is closed |
| empty | no content, since there is no end tag |

So the only difference is a newline at the start of preformatted text (`Node.reread`).  Regular
content begins with a token of its own unless it is a text (`Node.Regular.startsMarkup`), so a text
before it ends there.
-/

import DocHighlighter.Proofs.Html.Content

namespace DocHighlighter
namespace Html

open Token (WrittenTag closingText nameOf EndsText)

/-! ## Names -/

/-- What happens where an element is opened and closed in a body. -/
inductive NameRule where
  | plain
  | preformatted
  | formatting
  | empty
  deriving DecidableEq

/-- Names of elements that belong into the head of a page. -/
def headNames : List String :=
  ["base", "basefont", "bgsound", "link", "meta", "title", "style", "script", "noframes"]

/-- Names of preformatted elements. -/
def preformattedNames : List String :=
  ["pre", "listing"]

/-- Names of elements without content in a body. -/
def emptyNames : List String :=
  ["area", "br", "embed", "hr", "img", "input", "keygen", "param", "source", "track", "wbr"]

/-- What happens to the elements of a name, if it is one of these four things. -/
def nameRule? (name : String) : Option NameRule :=
  if headNames.contains name then none
  else if preformattedNames.contains name then some .preformatted
  else if ("a" :: Builder.formatNames).contains name then some .formatting
  else if emptyNames.contains name then some .empty
  else if (Builder.blockNames.erase "p").contains name then some .plain
  else if Builder.openingRule name = .ordinary then some .plain
  else none

namespace Builder

variable {name : String} {b : Builder} {k : Bool}

theorem headElement?_eq_none (h : name ∉ headNames) (b : Builder) (attributes : List Attribute) :
    b.headElement? ⟨name, attributes, .page⟩ = none := by
  simp only [headNames, List.mem_cons, List.not_mem_nil, or_false, not_or] at h
  simp [headElement?, h]

theorem block_of_mem : ∀ name ∈ blockNames.erase "p", name ∉ headNames ∧
    openingRule name = .block ∧ name ∈ closedNames ∧ name ≠ "p" ∧ name ≠ "body" ∧
    name ≠ "html" ∧ voidNames.contains name = false ∧ plainTextNames.contains name = false := by
  decide +kernel

/-- Blocks but paragraphs are plain. -/
theorem isPlainName_of_block (h : name ∈ blockNames.erase "p") : IsPlainName name := by
  obtain ⟨hhead, hrule, hclosed, hp, hbody, hhtml, hvoid, hplain⟩ := block_of_mem name h
  refine ⟨fun {k b} attributes hb => ?_, fun {b f s} hs hname => ?_, hp, hvoid, hplain⟩
  · simp only [openInBody, headElement?_eq_none hhead, hrule, hb.closeParagraph_eq]
  · have hcloses : b.closeInBody name = b.closeWithin Frame.bounds (·.isPage name) := by
      simp [closeInBody, hbody, hhtml, hclosed]
    rw [hcloses, closeWithin_top hs hname]

/-- Names that end tags have a rule for, or that are written without one, or with plain text. -/
def ruledNames : List String :=
  ["body", "html", "p", "li", "dd", "dt", "h1", "h2", "h3", "h4", "h5", "h6", "a", "nobr",
    "applet", "marquee", "object", "br"] ++ closedNames ++ formatNames ++ voidNames ++
    plainTextNames

theorem not_ordinary_of_mem : ∀ name ∈ ruledNames, name ∉ headNames →
    openingRule name ≠ .ordinary := by
  decide +kernel

/-- So are the names that no rule mentions. -/
theorem isPlainName_of_ordinary (hhead : name ∉ headNames) (hrule : openingRule name = .ordinary) :
    IsPlainName name := by
  have hnot : name ∉ ruledNames := fun h => not_ordinary_of_mem name h hhead hrule
  simp only [ruledNames, List.mem_append, not_or] at hnot
  obtain ⟨⟨⟨⟨hfew, hclosed⟩, hformat⟩, hvoid⟩, hplain⟩ := hnot
  simp only [List.mem_cons, List.not_mem_nil, or_false, not_or] at hfew
  refine IsOrdinaryName.isPlainName ⟨fun b attributes => ?_, fun b => ?_, hfew.2.2.1, ?_, ?_⟩
  · simp only [openInBody, headElement?_eq_none hhead, hrule]
  · simp [closeInBody, hfew, hclosed, hformat]
  · simpa using hvoid
  · simpa using hplain

end Builder

/-- What is asked of a name by its rule. -/
theorem nameRule?_cases {name : String} {rule : NameRule} (h : nameRule? name = some rule) :
    match rule with
    | .plain => IsPlainName name
    | .preformatted => name ∈ preformattedNames
    | .formatting => name ∈ "a" :: Builder.formatNames
    | .empty => name ∈ emptyNames := by
  unfold nameRule? at h
  split at h
  · cases h
  next hhead =>
  have hhead' : name ∉ headNames := by simpa using hhead
  split at h
  · next hmem =>
    obtain rfl := Option.some.inj h
    exact List.contains_iff_mem.1 hmem
  split at h
  · next hmem =>
    obtain rfl := Option.some.inj h
    exact List.contains_iff_mem.1 hmem
  split at h
  · next hmem =>
    obtain rfl := Option.some.inj h
    exact List.contains_iff_mem.1 hmem
  split at h
  · next hmem =>
    obtain rfl := Option.some.inj h
    exact Builder.isPlainName_of_block (List.contains_iff_mem.1 hmem)
  split at h
  · next hrule =>
    obtain rfl := Option.some.inj h
    exact Builder.isPlainName_of_ordinary hhead' hrule
  · cases h

/-! ## Tags -/

/-- A tag that is read back from its own markup. -/
structure Tag.IsKept (t : Tag) : Prop where
  space : t.space = .page
  name : Token.IsTagName t.name.toList
  lower : nameOf t.name.toList = t.name
  attributes : ∀ a ∈ t.attributes, a.IsKept
  names : (t.attributes.map Attribute.name).Nodup

namespace Tag.IsKept

variable {t : Tag} (h : t.IsKept)
include h

theorem readAttributes_written : t.written.readAttributes = t.attributes := by
  rw [WrittenTag.readAttributes, Tag.written, List.map_map]
  refine (List.map_congr_left fun a ha => ?_).trans (List.map_id _)
  obtain ⟨-, hname, hvalue⟩ := h.attributes a ha
  rw [Function.comp_apply, Attribute.read_written a hvalue, hname]
  rfl

theorem isPlain_written : t.written.IsPlain :=
  Tag.isPlain_written h.name (fun a ha => (h.attributes a ha).plain)
    (by rw [h.readAttributes_written]; exact h.names)

theorem eq_page : (⟨t.name, t.attributes, .page⟩ : Tag) = t := by
  rw [← h.space]

end Tag.IsKept

/-- A tag with a class only is read back. -/
theorem Tag.isKept_of_class {name : String} {value : List Char}
    (hname : Token.IsTagName name.toList) (hlower : nameOf name.toList = name)
    (hvalue : '\x00' ∉ value) : (⟨name, [⟨"class", value⟩], .page⟩ : Tag).IsKept := by
  have hkey : "class".toList ≠ [] ∧ (∀ c ∈ "class".toList, c ∉ Token.nameSigns) ∧
      nameOf "class".toList = "class" := by decide
  have hplain : (⟨"class", value⟩ : Attribute).written.IsPlain := by
    dsimp only [Attribute.written]
    refine ⟨hkey.1, hkey.2.1, fun hquote => ?_⟩
    obtain ⟨c, -, hc⟩ := List.mem_flatMap.1 hquote
    exact quote_not_mem_valueChar c hc
  refine ⟨rfl, hname, hlower, fun a ha => ?_, by simp⟩
  rw [List.mem_singleton.1 ha]
  exact ⟨hplain, hkey.2.2, hvalue⟩

/-! ## Comments -/

namespace Token

/-- A comment ends where it does if nothing comes behind it. -/
theorem commentRest_append {read content : List Char} (page : List Char)
    (h : commentRest read (content ++ ['-', '-', '>']) = (read.reverse ++ content, [])) :
    commentRest read (content ++ ['-', '-', '>'] ++ page) = (read.reverse ++ content, page) := by
  induction content generalizing read with
  | nil =>
    rw [List.append_nil]
    rfl
  | cons d content ih =>
    obtain ⟨p, q, r, more, hmore⟩ : ∃ p q r more,
        content ++ ['-', '-', '>'] = p :: q :: r :: more := by
      match content with
      | [] => exact ⟨_, _, _, _, rfl⟩
      | [_] => exact ⟨_, _, _, _, rfl⟩
      | [_, _] => exact ⟨_, _, _, _, rfl⟩
      | _ :: _ :: _ :: _ => exact ⟨_, _, _, _, rfl⟩
    have hends : ∀ rest : List Char, (read.reverse, rest) ≠ (read.reverse ++ d :: content, []) := by
      intro rest he
      have hlength := congrArg List.length (Prod.mk.inj he).1
      rw [List.length_append, List.length_cons] at hlength
      omega
    rw [List.cons_append, hmore] at h
    have hclose : ¬ (d = '-' ∧ p = '-' ∧ q = '>') := by
      rintro ⟨rfl, rfl, rfl⟩
      exact hends (r :: more) h
    have hbang : ¬ (d = '-' ∧ p = '-' ∧ q = '!' ∧ r = '>') := by
      rintro ⟨rfl, rfl, rfl, rfl⟩
      exact hends more h
    have hgoes : ∀ rest, commentRest read (d :: p :: q :: r :: rest) =
        commentRest (d :: read) (p :: q :: r :: rest) := by
      intro rest
      rw [commentRest] <;> simp <;> grind
    rw [hgoes, ← hmore] at h
    have hrest : commentRest (d :: read) (content ++ ['-', '-', '>'] ++ page) =
        ((d :: read).reverse ++ content, page) := ih (by rw [h]; simp)
    rw [List.cons_append, hmore, List.cons_append, List.cons_append, List.cons_append,
      List.cons_append, hgoes, ← List.cons_append, ← List.cons_append, ← List.cons_append, ← hmore,
      hrest]
    simp

/-- A comment is read back from its own markup. -/
structure IsKeptComment (content : List Char) : Prop where
  ends : commentFrom (content ++ ['-', '-', '>']) = (content, [])
  nul : '\x00' ∉ content
  noReturn : '\r' ∉ content

theorem commentFrom_append {content : List Char} (page : List Char)
    (h : commentFrom (content ++ ['-', '-', '>']) = (content, [])) :
    commentFrom (content ++ ['-', '-', '>'] ++ page) = (content, page) := by
  obtain ⟨c, d, more, hmore⟩ : ∃ c d more, content ++ ['-', '-', '>'] = c :: d :: more := by
    match content with
    | [] => exact ⟨_, _, _, rfl⟩
    | [_] => exact ⟨_, _, _, rfl⟩
    | _ :: _ :: _ => exact ⟨_, _, _, rfl⟩
  rw [hmore] at h
  have hclose : c ≠ '>' := by
    rintro rfl
    exact absurd (Prod.mk.inj h).2 (List.cons_ne_nil _ _)
  have hdash : ¬ (c = '-' ∧ d = '>') := by
    rintro ⟨rfl, rfl⟩
    obtain rfl : [] = content := (Prod.mk.inj h).1
    exact absurd hmore (by simp)
  have hgoes : ∀ rest, commentFrom (c :: d :: rest) = commentRest [] (c :: d :: rest) := by
    intro rest
    rw [commentFrom] <;> simp <;> grind
  have hrest : commentRest [] (content ++ ['-', '-', '>'] ++ page) =
      (([] : List Char).reverse ++ content, page) :=
    commentRest_append page (by rw [hmore, ← hgoes, h]; rfl)
  rw [hmore] at hrest ⊢
  rw [List.cons_append, List.cons_append] at hrest ⊢
  rw [hgoes, hrest]
  rfl

/-- A comment that is read back from its own markup is read there, whatever comes behind. -/
theorem next_comment {foreign : Bool} {content : List Char} (h : IsKeptComment content)
    (page : List Char) :
    next (.markup foreign) '<' ('!' :: '-' :: '-' :: (content ++ ['-', '-', '>'] ++ page)) =
      (some (.comment content), page) := by
  have hmarkup : next (.markup foreign) '<'
      ('!' :: '-' :: '-' :: (content ++ ['-', '-', '>'] ++ page)) =
      (some (.comment (withoutNul (commentFrom (content ++ ['-', '-', '>'] ++ page)).1)),
        (commentFrom (content ++ ['-', '-', '>'] ++ page)).2) := rfl
  rw [hmarkup, commentFrom_append page h.ends, withoutNul_of_not_mem h.nul]

end Token

/-! ## Regular content -/

namespace Node

/-- A node that is read as it stands, with formatting elements of some names around it. -/
inductive Regular : List String → Node → Prop
  | text {around : List String} {content : List Char} (hne : content ≠ [])
      (hnul : '\x00' ∉ content) : Regular around (.text content)
  | comment {around : List String} {content : List Char} (h : Token.IsKeptComment content) :
      Regular around (.comment content)
  | plain {around : List String} {tag : Tag} {children : List Node} (htag : tag.IsKept)
      (hrule : nameRule? tag.name = some .plain) (hseparate : Separate children)
      (hchildren : ∀ n ∈ children, Regular around n) : Regular around (.element tag children)
  | preformatted {around : List String} {tag : Tag} {children : List Node} (htag : tag.IsKept)
      (hrule : nameRule? tag.name = some .preformatted) (hseparate : Separate children)
      (hchildren : ∀ n ∈ children, Regular around n) : Regular around (.element tag children)
  | formatting {around : List String} {tag : Tag} {children : List Node} (htag : tag.IsKept)
      (hrule : nameRule? tag.name = some .formatting) (hnot : tag.name ∉ around)
      (hseparate : Separate children)
      (hchildren : ∀ n ∈ children, Regular (tag.name :: around) n) :
      Regular around (.element tag children)
  | empty {around : List String} {tag : Tag} (htag : tag.IsKept)
      (hrule : nameRule? tag.name = some .empty) : Regular around (.element tag [])

/-- Nodes without the newline that they begin with. -/
def withoutNewline : List Node → List Node
  | .text ['\n'] :: rest => rest
  | .text ('\n' :: content) :: rest => .text content :: rest
  | ns => ns

mutual

/-- A node as it is read from its own markup: preformatted text loses the newline that it begins
with. -/
def reread : Node → Node
  | text content => text content
  | comment content => comment content
  | element tag children =>
    element tag (if tag.isOneOf preformattedNames then withoutNewline (rereadAll children)
      else rereadAll children)

/-- Nodes side by side as they are read. -/
def rereadAll : List Node → List Node
  | [] => []
  | n :: rest => n.reread :: rereadAll rest

end

theorem isText_reread (n : Node) : n.reread.isText = n.isText := by
  cases n <;> rfl

theorem rereadAll_eq_map (ns : List Node) : rereadAll ns = ns.map reread := by
  induction ns with
  | nil => rfl
  | cons n rest ih => rw [rereadAll, ih, List.map_cons]

theorem Separate.rereadAll {ns : List Node} (h : Separate ns) : Separate (rereadAll ns) := by
  rw [rereadAll_eq_map]
  refine List.isChain_map_of_isChain reread (fun m n hmn => ?_) h
  rwa [isText_reread, isText_reread]

theorem Separate.noTextFirst {n : Node} {rest : List Node} (h : Separate (n :: rest))
    (hn : n.isText = true) : NoTextFirst rest := by
  cases rest with
  | nil => exact noTextFirst_nil
  | cons m rest =>
    intro m' hm'
    obtain rfl := Option.some.inj hm'
    exact (List.isChain_cons_cons.1 h).1 hn

theorem Separate.tail {n : Node} {rest : List Node} (h : Separate (n :: rest)) : Separate rest :=
  List.IsChain.tail h

theorem Separate.withoutNewline {ns : List Node} (h : Separate ns) :
    Separate (withoutNewline ns) := by
  unfold Node.withoutNewline
  split
  · exact h.tail
  · exact separate_cons (fun _ => h.noTextFirst rfl) h.tail
  · exact h

end Node

/-- A text begins with a token that is no text. -/
def StartsMarkup (text : List Char) : Prop :=
  ∃ rest t tail, text = '<' :: rest ∧ Token.opensMarkup rest = true ∧
    Token.next (.markup false) '<' rest = (some t, tail) ∧ Builder.withoutNewline t = some t

theorem StartsMarkup.endsText {text : List Char} (h : StartsMarkup text) : EndsText text := by
  obtain ⟨rest, -, -, htext, hopens, -⟩ := h
  exact .inr ⟨rest, htext, hopens⟩

theorem opensMarkup_of_endsText {rest : List Char} (h : EndsText ('<' :: rest)) :
    Token.opensMarkup rest = true := by
  obtain hnil | ⟨rest', he, hopens⟩ := h
  · cases hnil
  · obtain rfl := (List.cons.inj he).2
    exact hopens

theorem startsMarkup_closing {name : List Char} (h : Token.IsTagName name) (page : List Char) :
    StartsMarkup ('<' :: (closingText name ++ page)) :=
  ⟨_, _, _, rfl, opensMarkup_of_endsText (endsText_closing h.ne_nil page),
    Token.next_closing h page, rfl⟩

theorem startsMarkup_opening {t : WrittenTag} (h : t.IsPlain) (page : List Char) :
    StartsMarkup ('<' :: (t.text ++ page)) :=
  ⟨_, _, _, rfl, opensMarkup_of_endsText (endsText_tag h page), Token.next_opening h page, rfl⟩

theorem startsMarkup_element {tag : Tag} (h : tag.IsKept) (children : List Node)
    (page : List Char) : StartsMarkup ((Node.element tag children).markup ++ page) := by
  have hmarkup : (Node.element tag children).markup ++ page = '<' :: (tag.written.text ++
      (Node.markupsIn tag.holdsPlainText children ++ tag.closing ++ page)) := by
    rw [Node.markup, Node.markupIn, Tag.opening_eq]
    simp
  rw [hmarkup]
  exact startsMarkup_opening h.isPlain_written _

theorem markup_comment_append (content page : List Char) :
    (Node.comment content).markup ++ page =
      '<' :: '!' :: '-' :: '-' :: (content ++ ['-', '-', '>'] ++ page) := by
  rw [Node.markup, Node.markupIn]
  simp

/-- What is no text begins with markup. -/
theorem Node.Regular.startsMarkup {around : List String} {n : Node} (h : n.Regular around)
    (hn : n.isText = false) (page : List Char) : StartsMarkup (n.markup ++ page) := by
  cases h with
  | text => cases hn
  | comment h =>
    rw [markup_comment_append]
    exact ⟨_, _, _, rfl, rfl, Token.next_comment h page, rfl⟩
  | plain htag => exact startsMarkup_element htag _ page
  | preformatted htag => exact startsMarkup_element htag _ page
  | formatting htag => exact startsMarkup_element htag _ page
  | empty htag => exact startsMarkup_element htag _ page

end Html
end DocHighlighter
