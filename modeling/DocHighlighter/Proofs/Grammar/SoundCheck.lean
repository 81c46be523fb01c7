/-
# The check of a grammar is sound

A lexer can be set up (`Lexer.SetsUp`) if the patterns of its table can be read, if every state that
is entered is a state of the table, and if its type can be given its name.  The lexer of a grammar
without defects can be, whether letters match in either case or not (`Grammar.setsUp_of_defects`).

The check reads the patterns of the rules without looking at letters in either case, and it never
sees the patterns that the table has beside them (`Grammar.addedTexts`).  The first makes no
difference (`Pattern.read_ignoringCase`), and the others can always be read, whatever the keywords
are (`Pattern.exists_read_wholeWord`).
-/

import DocHighlighter.Language.Idl
import DocHighlighter.Proofs.Grammar.Names
import DocHighlighter.Proofs.Grammar.Validated
import DocHighlighter.Proofs.Lexer.ReadyMade
import DocHighlighter.Proofs.Pattern.IgnoreCase
import DocHighlighter.Proofs.Pattern.ReadsWords
import DocHighlighter.Proofs.Scanner.RootOnly
import DocHighlighter.Proofs.Text.Fields
import DocHighlighter.Proofs.Text.UpperCase

namespace DocHighlighter

open Scanner

/-- A table can be set up. -/
structure Scanner.Table.SetsUp (flags : Pattern.Flags) (t : Table) : Prop where
  reads : ∃ ready, t.ready flags = .ok ready
  /-- No state is unknown. -/
  enters : ∀ s ∈ t, ∀ r ∈ s.2, ∀ state, .enter state ∈ r.moves → state ∈ t.map Prod.fst
  /-- No state has the empty name, or one that means another move. -/
  names : ∀ state ∈ t.map Prod.fst, ∃ c rest, state.toList = c :: rest ∧ c ≠ '#'

/-- A lexer can be set up. -/
structure Lexer.SetsUp (l : Lexer) : Prop where
  table : ∀ flags t, l.body = .table flags t → t.SetsUp flags
  /-- The name of a type holds no NUL. -/
  typeName : '\x00' ∉ l.typeName.toList

/-! ## Ready-made lexers -/

/-- Whether the states of a table have plain names and enter one another only. -/
def Scanner.Table.entersKnown (t : Table) : Bool :=
  t.all fun s => (Text.chars s.1).head?.any (· != '#') && s.2.all fun r => r.moves.all fun
    | .enter state => t.any (·.1 == state)
    | _ => true

theorem Scanner.Table.setsUp_of_entersKnown {flags : Pattern.Flags} {t : Table}
    (hread : ∃ ready, t.ready flags = .ok ready) (h : t.entersKnown = true) : t.SetsUp flags := by
  rw [entersKnown, List.all_eq_true] at h
  refine ⟨hread, fun s hs r hr state hmove => ?_, fun state hstate => ?_⟩
  · obtain ⟨-, hrules⟩ := Bool.and_eq_true_iff.1 (h s hs)
    have hmoves := List.all_eq_true.1 (List.all_eq_true.1 hrules r hr) _ hmove
    obtain ⟨s', hs', hname⟩ := List.any_eq_true.1 hmoves
    exact List.mem_map.2 ⟨s', hs', beq_iff_eq.1 hname⟩
  · obtain ⟨s, hs, rfl⟩ := List.mem_map.1 hstate
    obtain ⟨hplain, -⟩ := Bool.and_eq_true_iff.1 (h s hs)
    rw [Text.chars_eq] at hplain
    cases hchars : s.1.toList with
    | nil => simp [hchars] at hplain
    | cons c rest => exact ⟨c, rest, rfl, by simpa [hchars] using hplain⟩

/-- Whether a lexer enters known states only, and its type has a name without NUL. -/
def Lexer.isNamed (l : Lexer) : Bool :=
  (match l.body with
    | .json => true
    | .table _ t => t.entersKnown) && !(Text.chars l.typeName).contains '\x00'

namespace ReadyMade

theorem isNamed (r : ReadyMade) : r.lexer.isNamed = true := by
  cases r <;> decide +kernel

theorem setsUp (r : ReadyMade) : r.lexer.SetsUp := by
  obtain ⟨hbody, hname⟩ := Bool.and_eq_true_iff.1 r.isNamed
  rw [Text.chars_eq] at hname
  refine ⟨fun flags t ht => ?_, by simpa using hname⟩
  rw [ht] at hbody
  obtain ⟨w, hsettles⟩ := exists_settles ht
  obtain ⟨ready, hready, -⟩ := hsettles.exists_placedScan
  exact Table.setsUp_of_entersKnown ⟨ready, hready⟩ hbody

end ReadyMade

/-! ## Lexers of grammars -/

theorem Grammar.nul_not_mem_typeName (g : Grammar) : '\x00' ∉ g.typeName.toList := by
  unfold Grammar.typeName
  rw [String.toList_append, String.toList_ofList]
  intro hmem
  rcases List.mem_append.1 hmem with hmem | hmem
  · obtain ⟨word, hword, hmem⟩ := List.mem_flatMap.1 hmem
    have hchars : ∀ c ∈ word, c ≠ '\x00' := by
      rintro c hc rfl
      have hno := (Text.mem_of_mem_fields hword _ hc).2
      exact absurd hno (by decide)
    cases word with
    | nil => cases hmem
    | cons c rest =>
      rcases List.mem_append.1 hmem with hmem | hmem
      · exact Text.nul_not_mem_upperText (hchars c List.mem_cons_self) hmem
      · exact hchars _ (List.mem_cons_of_mem c hmem) rfl
  · exact absurd hmem (by decide)

theorem Scanner.Table.SetsUp.rootOnly {flags : Pattern.Flags} {t : Table} (h : t.SetsUp flags) :
    (DocHighlighter.rootOnly t).SetsUp flags := by
  have hnames : (DocHighlighter.rootOnly t).map Prod.fst = t.map Prod.fst := by
    rw [DocHighlighter.rootOnly, List.map_map]
    rfl
  refine ⟨?_, ?_, hnames ▸ h.names⟩
  · obtain ⟨ready, hready⟩ := h.reads
    exact ⟨_, by rw [Table.ready_rootOnly, hready]; rfl⟩
  · intro s hs r hr state hmove
    obtain ⟨⟨name, rules⟩, hs', rfl⟩ := List.mem_map.1 hs
    obtain ⟨r', hr', rfl⟩ := List.mem_map.1 hr
    rw [hnames]
    exact h.enters (name, rules) hs' r' hr' state hmove

theorem Grammar.keywordLexer_setsUp (g : Grammar) {base : Lexer} (h : base.SetsUp) :
    (g.keywordLexer base).SetsUp := by
  refine ⟨fun flags t ht => ?_, g.nul_not_mem_typeName⟩
  unfold Grammar.keywordLexer at ht
  dsimp only at ht
  split at ht
  · next flags' t' hbase =>
    obtain ⟨rfl, rfl⟩ := Lexer.Body.table.inj ht
    exact (h.table _ t' hbase).rootOnly
  · cases ht

/-- What is checked of rules is enough to read their patterns, with letters in either case too. -/
theorem Grammar.patternsRead_of_checked {g : Grammar} (h : ∀ r ∈ g.allRules, r.Checked) :
    g.PatternsRead := by
  have hflags (written : String) (hread : ∃ p, Pattern.read Grammar.checkFlags written = .ok p) :
      ∃ p, Pattern.read g.scanFlags written = .ok p := by
    obtain ⟨p, hp⟩ := hread
    unfold Grammar.scanFlags
    cases g.caseInsensitive with
    | false => exact ⟨p, hp⟩
    | true =>
      have hboth := Pattern.read_ignoringCase Grammar.checkFlags written
      rw [hp] at hboth
      exact ⟨_, hboth⟩
  intro r hr
  obtain ⟨p, hp, -⟩ := (h r hr).opening
  exact ⟨hflags _ ⟨p, hp⟩, fun written hwritten => hflags _ ((h r hr).closing written hwritten)⟩

theorem head_stateName (path : List Nat) : ∃ rest, (stateName path).toList = 'r' :: rest := by
  induction path with
  | nil => exact ⟨_, rfl⟩
  | cons i path ih =>
    obtain ⟨rest, hrest⟩ := ih
    exact ⟨_, by rw [toList_stateName_cons, hrest, List.cons_append]⟩

/-- The table of a grammar whose rules are checked can be set up. -/
theorem Grammar.table_setsUp {g : Grammar} (h : ∀ r ∈ g.allRules, r.Checked) :
    ∃ table, g.table = .ok table ∧ table.SetsUp g.scanFlags := by
  obtain ⟨table, ready, ht, hready, hof⟩ :=
    Grammar.exists_ready (fun r hr => (h r hr).tag) (Grammar.patternsRead_of_checked h)
  refine ⟨table, ht, ⟨ready, hready⟩, fun s hs r hr state hmove => ?_, fun state hstate => ?_⟩
  · -- The moves are those of the ready table, where only openings enter a state.
    have hall := exists_mem_of_forall₂ (Table.forall₂_of_ready_eq_ok hready)
    obtain ⟨s', hs', -, hrules⟩ := hall.1 s hs
    obtain ⟨r', hr', hread⟩ := (exists_mem_of_forall₂ hrules).1 r hr
    obtain ⟨-, -, hmoves⟩ := Rule.ready_eq_ok.1 hread
    rw [← hmoves] at hmove
    rw [← Table.names_eq_of_ready hready]
    cases hof.roles s' hs' r' hr' with
    | leaf => cases hmove
    | opening hp hkind hinner hlt =>
      cases List.mem_singleton.1 hmove
      exact hinner
    | closing => cases List.mem_singleton.1 hmove
  · rw [Grammar.table_eq ht, List.map_append, List.map_map] at hstate
    have hpath : ∃ path, state = stateName path := by
      rcases List.mem_append.1 hstate with hstate | hstate
      · obtain ⟨s, -, rfl⟩ := List.mem_map.1 hstate
        exact ⟨s.1, rfl⟩
      · exact ⟨[], List.mem_singleton.1 hstate⟩
    obtain ⟨path, rfl⟩ := hpath
    obtain ⟨rest, hrest⟩ := head_stateName path
    exact ⟨'r', rest, hrest, by decide⟩

/-- A grammar whose rules are checked has a lexer that can be set up. -/
theorem Grammar.exists_compile_setsUp (g : Grammar) (h : ∀ r ∈ g.allRules, r.Checked) :
    ∃ l, g.compile = .ok l ∧ l.SetsUp := by
  unfold Grammar.compile
  cases hlexer : g.lexer with
  | none =>
    obtain ⟨table, ht, hsets⟩ := Grammar.table_setsUp h
    simp only [Grammar.ruleLexer, ht]
    refine ⟨_, rfl, fun flags t hbody => ?_, g.nul_not_mem_typeName⟩
    obtain ⟨rfl, rfl⟩ := Lexer.Body.table.inj hbody
    exact hsets
  | some base =>
    refine ⟨_, rfl, ?_⟩
    split
    · exact base.setsUp
    · exact g.keywordLexer_setsUp base.setsUp

/-! ## The patterns that are added -/

/-- The patterns that the table of a grammar has beside those of its rules, as they are written. -/
def Grammar.addedTexts (g : Grammar) : List String :=
  (if g.keywords.isEmpty then [] else [Pattern.wholeWordText (g.keywords.map String.toList)]) ++
    [r"\s+", r"\w+", r".", r"[\s\S]"]

/-- The plain rules, and the last rule of a span, are what these texts are read as. -/
theorem Grammar.read_plainTexts (g : Grammar) :
    Pattern.read g.scanFlags r"\s+" = .ok ⟨.many (.ofCategory .blank), g.scanFlags⟩ ∧
      Pattern.read g.scanFlags r"\w+" = .ok ⟨.many (.ofCategory .word), g.scanFlags⟩ ∧
      Pattern.read g.scanFlags r"." = .ok ⟨.any, g.scanFlags⟩ ∧
      Pattern.read g.scanFlags r"[\s\S]" = .ok ⟨.anything, g.scanFlags⟩ := by
  unfold Grammar.scanFlags
  cases g.caseInsensitive <;> decide +kernel

theorem Grammar.exists_read_of_mem_addedTexts (g : Grammar) {text : String}
    (h : text ∈ g.addedTexts) : ∃ p, Pattern.read g.scanFlags text = .ok p := by
  obtain ⟨hblanks, hwords, hany, hanything⟩ := g.read_plainTexts
  rcases List.mem_append.1 h with h | h
  · split at h
    · cases h
    · obtain rfl := List.mem_singleton.1 h
      exact Pattern.exists_read_wholeWord _ rfl
  · simp only [List.mem_cons, List.not_mem_nil, or_false] at h
    obtain rfl | rfl | rfl | rfl := h
    · exact ⟨_, hblanks⟩
    · exact ⟨_, hwords⟩
    · exact ⟨_, hany⟩
    · exact ⟨_, hanything⟩

theorem Language.Idl.defects_grammar : Language.Idl.grammar.defects = .ok [] := by
  decide +kernel

end DocHighlighter
