/-
# Which pages a site has

In a directory every page should be found, and nothing but pages: the files at any depth whose
names end in `.html`, each once and in the order of their paths (`Files.FindsPages`).

A search goes by names only (`Files.IsTree.mem_pagesOf`).  So it finds every page, but also the
directories that are named like one; and it finds nothing but pages exactly if there is no such
directory (`Files.IsTree.findsPages_iff`).

| path | leads to | stands for |
|---|---|---|
| `index.html` | a file | itself |
| `html` | a directory | the files `html/a.html` and `html/b/c.html` |
| | | and the directory `html/d.html`, which is no page |
-/

import DocHighlighter.Proofs.Site.Files
import DocHighlighter.Site.Render
import Mathlib.Data.List.Nodup

namespace DocHighlighter

/-! ## The order of paths -/

namespace Path

theorem namesLe_cons_self (name : String) (a b : List String) :
    namesLe (name :: a) (name :: b) = namesLe a b := by
  rw [namesLe, if_pos (beq_self_eq_true name)]

theorem namesLe_cons_of_ne {name name' : String} (h : name ≠ name') (a b : List String) :
    namesLe (name :: a) (name' :: b) = true ↔ name < name' := by
  rw [namesLe, if_neg (mt beq_iff_eq.1 h), decide_eq_true_iff]

theorem namesLe_total (a b : List String) : (namesLe a b || namesLe b a) = true := by
  induction a generalizing b with
  | nil => rfl
  | cons name a ih =>
    cases b with
    | nil => rfl
    | cons name' b =>
      by_cases hsame : name = name'
      · subst hsame
        rw [namesLe_cons_self, namesLe_cons_self]
        exact ih b
      · rw [Bool.or_eq_true, namesLe_cons_of_ne hsame, namesLe_cons_of_ne (Ne.symm hsame)]
        exact (String.le_total name name').imp (Std.lt_of_le_of_ne · hsame)
          (Std.lt_of_le_of_ne · (Ne.symm hsame))

theorem namesLe_trans (a b c : List String) (hab : namesLe a b = true) (hbc : namesLe b c = true) :
    namesLe a c = true := by
  induction a generalizing b c with
  | nil => rfl
  | cons name a ih =>
    cases b with
    | nil => cases hab
    | cons name' b =>
      cases c with
      | nil => cases hbc
      | cons name'' c =>
        by_cases hleft : name = name'
        · subst hleft
          by_cases hright : name = name''
          · subst hright
            rw [namesLe_cons_self] at hab hbc ⊢
            exact ih b c hab hbc
          · exact (namesLe_cons_of_ne hright a c).2 ((namesLe_cons_of_ne hright b c).1 hbc)
        · have hlt := (namesLe_cons_of_ne hleft a b).1 hab
          have hlt' : name < name'' := by
            by_cases hright : name' = name''
            · exact hright ▸ hlt
            · exact String.lt_trans hlt ((namesLe_cons_of_ne hright b c).1 hbc)
          exact (namesLe_cons_of_ne (Std.ne_of_lt hlt') a c).2 hlt'

/-- Paths from one directory are ordered as their names from there. -/
theorem namesLe_append (front a b : List String) :
    namesLe (front ++ a) (front ++ b) = namesLe a b := by
  induction front with
  | nil => rfl
  | cons name front ih => exact (namesLe_cons_self name _ _).trans ih

theorem append_injective (p : Path) : Function.Injective p.append := by
  intro a b h
  exact List.append_cancel_left (congrArg Path.parts h)

end Path

namespace Files

variable {fs : Files} {p q : Path} {place directory : Place} {names : List String} {e : Entry}

/-! ## What lies below a directory -/

theorem mem_waysTo {way place : Place} : way ∈ waysTo place ↔ way ≠ [] ∧ way <+: place := by
  induction place generalizing way with
  | nil => simp [waysTo]
  | cons name rest ih =>
    cases way with
    | nil => simp [waysTo]
    | cons name' way =>
      have hempty : way = [] ∨ way ≠ [] := em _
      simp only [waysTo, List.mem_cons, List.cons.injEq, List.mem_map, ih, List.cons_prefix_cons]
      constructor
      · rintro (⟨rfl, rfl⟩ | ⟨way, ⟨-, hway⟩, rfl, rfl⟩)
        · simp
        · exact ⟨List.cons_ne_nil _ _, rfl, hway⟩
      · rintro ⟨-, rfl, hway⟩
        rcases hempty with rfl | hne
        · exact .inl ⟨rfl, rfl⟩
        · exact .inr ⟨way, ⟨hne, hway⟩, rfl, rfl⟩

/-- Something lies at a place exactly if the place is on the way to something. -/
theorem isSome_at?_iff : (fs.at? place).isSome = true ↔ ∃ p ∈ fs.places, place <+: p := by
  unfold at?
  cases hfile : fs.files.lookup place with
  | some bytes =>
    obtain ⟨before, after, hfiles, -⟩ := List.lookup_eq_some_iff.1 hfile
    have hmem : place ∈ fs.places := by simp [places, hfiles]
    simpa using ⟨place, hmem, List.prefix_refl place⟩
  | none =>
    simp only [List.any_eq_true, List.isPrefixOf_iff_prefix]
    split <;> simp_all

theorem mem_below {names : Place} :
    names ∈ fs.below directory ↔ names ≠ [] ∧ (fs.at? (directory ++ names)).isSome = true := by
  rw [below, List.mem_eraseDups, List.mem_flatMap, isSome_at?_iff]
  constructor
  · rintro ⟨p, hp, hmem⟩
    split at hmem
    · next hbelow =>
      obtain ⟨rest, rfl⟩ := List.isPrefixOf_iff_prefix.1 hbelow
      rw [List.drop_left] at hmem
      obtain ⟨hne, hway⟩ := mem_waysTo.1 hmem
      exact ⟨hne, _, hp, (List.prefix_append_right_inj directory).2 hway⟩
    · exact absurd hmem List.not_mem_nil
  · rintro ⟨hne, p, hp, hway⟩
    obtain ⟨rest, rfl⟩ := (List.prefix_append directory names).trans hway
    refine ⟨_, hp, ?_⟩
    rw [if_pos (List.isPrefixOf_iff_prefix.2 (List.prefix_append directory rest)), List.drop_left]
    exact mem_waysTo.2 ⟨hne, (List.prefix_append_right_inj directory).1 hway⟩

theorem nodup_eraseDups (places : List Place) : places.eraseDups.Nodup := by
  induction hn : places.length using Nat.strongRecOn generalizing places with
  | ind n ih =>
    cases places with
    | nil => exact List.nodup_nil
    | cons place rest =>
      rw [List.eraseDups_cons, List.nodup_cons]
      refine ⟨?_, ih _ ?_ _ rfl⟩
      · simp
      · rw [← hn]
        exact Nat.lt_succ_of_le (List.length_filter_le _ _)

/-! ## Where the paths of a tree lead -/

/-- Nothing lies below a file, and no name leads back. -/
structure IsTree (fs : Files) : Prop where
  names : ∀ place ∈ fs.places, ".." ∉ place
  files : ∀ f ∈ fs.files, ∀ place ∈ fs.places, f.1 <+: place → place = f.1

theorem entry_eq_ok_iff :
    fs.entry p = .ok e ↔ ∃ place, fs.find p = .ok place ∧ fs.at? place = some e := by
  unfold entry
  cases fs.find p with
  | error fault => simp
  | ok place => cases hplace : fs.at? place <;> simp [hplace]

theorem isDirectory_iff : fs.isDirectory p = true ↔ fs.entry p = .ok .directory := by
  unfold isDirectory
  split
  · next h => simp [h]
  · next h => simpa using h

theorem isFile_iff : fs.isFile p = true ↔ ∃ bytes, fs.entry p = .ok (.file bytes) := by
  unfold isFile
  split
  · next bytes h => simp [h]
  · next h => simpa using h

/-- On the way to something there are directories. -/
theorem IsTree.at?_of_prefix (h : fs.IsTree) {way : Place} (hplace : (fs.at? place).isSome = true)
    (hway : way <+: place) (hne : way ≠ place) : fs.at? way = some .directory := by
  obtain ⟨other, hother, hfront⟩ := isSome_at?_iff.1 hplace
  obtain ⟨e, he⟩ := Option.isSome_iff_exists.1
    (isSome_at?_iff.2 ⟨other, hother, hway.trans hfront⟩)
  cases e with
  | directory => exact he
  | file bytes =>
    obtain ⟨before, after, hfiles, -⟩ := List.lookup_eq_some_iff.1 (lookup_of_at? he)
    obtain rfl := h.files (way, bytes) (by simp [hfiles]) other hother (hway.trans hfront)
    exact absurd (hway.eq_of_length_le hfront.length_le) hne

theorem follow_append (back : Place) (names more : List String) :
    fs.follow back (names ++ more) =
      match fs.follow back names with
      | .ok place => fs.follow place.reverse more
      | .error fault => .error fault := by
  induction names generalizing back with
  | nil => simp [follow]
  | cons name rest ih =>
    rw [List.cons_append, follow, follow]
    cases fs.at? back.reverse with
    | none => rfl
    | some e =>
      cases e with
      | file bytes => rfl
      | directory =>
        dsimp only
        split
        · exact ih _
        · exact ih _

/-- Names that do not lead back lead straight on. -/
theorem eq_of_follow {back : Place} (hnames : ".." ∉ names) (h : fs.follow back names = .ok place) :
    place = back.reverse ++ names := by
  induction names generalizing back with
  | nil => simpa [follow, eq_comm] using h
  | cons name rest ih =>
    obtain ⟨hname, hrest⟩ := not_or.1 fun hmem => hnames (List.mem_cons.2 hmem)
    have hother : (name == "..") = false := beq_false_of_ne (Ne.symm hname)
    rw [follow] at h
    split at h
    · cases h
    · cases h
    · rw [hother, if_neg Bool.false_ne_true] at h
      simpa using ih hrest h

/-- In a tree the names of what lies below a directory lead there. -/
theorem IsTree.follow_eq (h : fs.IsTree) (hplace : (fs.at? (place ++ names)).isSome = true) :
    fs.follow place.reverse names = .ok (place ++ names) := by
  induction names generalizing place with
  | nil => simp [follow]
  | cons name rest ih =>
    obtain ⟨other, hother, hfront⟩ := isSome_at?_iff.1 hplace
    have hname : (name == "..") = false := by
      refine beq_false_of_ne fun hback => h.names other hother (hfront.subset ?_)
      simp [hback]
    have hdirectory := h.at?_of_prefix hplace (List.prefix_append _ _) (by simp)
    have hon : fs.follow (name :: place.reverse) rest = .ok (place ++ name :: rest) := by
      have hplace' : (fs.at? (place ++ [name] ++ rest)).isSome = true := by simpa using hplace
      simpa using ih hplace'
    rw [follow, List.reverse_reverse, hdirectory]
    simpa only [hname, Bool.false_eq_true, if_false] using hon

/-- Something lies below what a path leads to: names that do not lead back lead there. -/
def LiesBelow (fs : Files) (p : Path) (names : List String) (e : Entry) : Prop :=
  names ≠ [] ∧ ".." ∉ names ∧ fs.entry (p.append names) = .ok e

theorem IsTree.liesBelow_iff (h : fs.IsTree) (hp : fs.find p = .ok place) :
    fs.LiesBelow p names e ↔ names ≠ [] ∧ fs.at? (place ++ names) = some e := by
  have hfind : fs.find (p.append names) = fs.follow place.reverse names := by
    rw [find] at hp
    rw [find]
    have hstart : fs.startOf (p.append names) = fs.startOf p := rfl
    refine (follow_append _ p.parts names).trans ?_
    rw [hstart, hp]
  rw [LiesBelow, entry_eq_ok_iff, hfind]
  refine and_congr_right fun _ => ?_
  constructor
  · rintro ⟨hnames, other, hother, he⟩
    obtain rfl := eq_of_follow hnames hother
    rwa [List.reverse_reverse] at he
  · intro he
    have hsome : (fs.at? (place ++ names)).isSome = true := by rw [he]; rfl
    obtain ⟨other, hother, hfront⟩ := isSome_at?_iff.1 hsome
    refine ⟨fun hback => h.names other hother (hfront.subset ?_), _, h.follow_eq hsome, he⟩
    exact List.mem_append_right _ hback

/-! ## What is found -/

/-- Whether the last of some names is that of a page. -/
def isPageAt (names : List String) : Bool :=
  names.getLast?.any isPageName

theorem pagesOf_of_not_isDirectory (h : fs.isDirectory p = false) : fs.pagesOf p = [p] := by
  unfold pagesOf
  split
  · rw [h, if_neg Bool.false_ne_true]
  · rfl

theorem pagesOf_of_isDirectory (h : fs.isDirectory p = true) :
    ∃ place, fs.find p = .ok place ∧ fs.pagesOf p =
      (((fs.below place).filter isPageAt).mergeSort Path.namesLe).map p.append := by
  obtain ⟨place, hp, -⟩ := entry_eq_ok_iff.1 (isDirectory_iff.1 h)
  refine ⟨place, hp, ?_⟩
  rw [pagesOf, hp]
  dsimp only
  rw [if_pos h]
  rfl

/-- **A search goes by names:** in a directory it finds whatever lies below and is named like a
page. -/
theorem IsTree.mem_pagesOf (htree : fs.IsTree) (h : fs.isDirectory p = true) :
    q ∈ fs.pagesOf p ↔
      ∃ names e, q = p.append names ∧ isPageAt names = true ∧ fs.LiesBelow p names e := by
  obtain ⟨place, hp, hpages⟩ := pagesOf_of_isDirectory h
  simp only [hpages, List.mem_map, List.mem_mergeSort, List.mem_filter, mem_below,
    htree.liesBelow_iff hp, Option.isSome_iff_exists]
  constructor
  · rintro ⟨names, ⟨⟨hne, e, he⟩, hpage⟩, rfl⟩
    exact ⟨names, e, rfl, hpage, hne, he⟩
  · rintro ⟨names, e, rfl, hpage, hne, he⟩
    exact ⟨names, ⟨⟨hne, e, he⟩, hpage⟩, rfl⟩

theorem nodup_pagesOf (fs : Files) (p : Path) : (fs.pagesOf p).Nodup := by
  cases h : fs.isDirectory p with
  | false =>
    rw [pagesOf_of_not_isDirectory h]
    exact List.nodup_singleton p
  | true =>
    obtain ⟨place, -, hpages⟩ := pagesOf_of_isDirectory h
    rw [hpages]
    refine List.Nodup.map p.append_injective ((List.mergeSort_perm _ _).nodup_iff.2 ?_)
    exact (nodup_eraseDups _).filter _

theorem sorted_pagesOf (fs : Files) (p : Path) :
    (fs.pagesOf p).Pairwise fun q r => Path.namesLe q.parts r.parts = true := by
  cases h : fs.isDirectory p with
  | false =>
    rw [pagesOf_of_not_isDirectory h]
    exact List.pairwise_singleton _ p
  | true =>
    obtain ⟨place, -, hpages⟩ := pagesOf_of_isDirectory h
    rw [hpages]
    refine (List.pairwise_mergeSort Path.namesLe_trans Path.namesLe_total _).map p.append ?_
    intro a b hab
    exact (Path.namesLe_append p.parts a b).trans hab

/-- A path stands for itself, or, if it leads to a directory, for the files at any depth below that
are named like a page, each of them once and in the order of their paths. -/
structure FindsPages (fs : Files) (p : Path) : Prop where
  itself : fs.isDirectory p = false → fs.pagesOf p = [p]
  once : (fs.pagesOf p).Nodup
  sorted : (fs.pagesOf p).Pairwise fun q r => Path.namesLe q.parts r.parts = true
  pages : fs.isDirectory p = true → ∀ q, q ∈ fs.pagesOf p ↔
    ∃ names bytes, q = p.append names ∧ isPageAt names = true ∧ fs.LiesBelow p names (.file bytes)

/-- Below a directory another directory is named like a page. -/
def HasPageDirectory (fs : Files) (p : Path) : Prop :=
  ∃ names, isPageAt names = true ∧ fs.LiesBelow p names .directory

/-- Nothing lies below a file. -/
theorem IsTree.isDirectory_of_liesBelow (htree : fs.IsTree) (hp : fs.has p = true)
    (h : fs.LiesBelow p names e) : fs.isDirectory p = true := by
  obtain ⟨place, hfind⟩ : ∃ place, fs.find p = .ok place := by
    unfold has entry at hp
    cases hfind : fs.find p with
    | error fault => simp [hfind] at hp
    | ok place => exact ⟨place, rfl⟩
  obtain ⟨hne, he⟩ := (htree.liesBelow_iff hfind).1 h
  have hdirectory := htree.at?_of_prefix (by rw [he]; rfl) (List.prefix_append place names)
    (by simpa using hne)
  exact isDirectory_iff.2 (entry_eq_ok_iff.2 ⟨place, hfind, hdirectory⟩)

/-- **A path stands for pages only exactly if no directory below is named like one.** -/
theorem IsTree.findsPages_iff (htree : fs.IsTree) (hp : fs.has p = true) :
    fs.FindsPages p ↔ ¬ fs.HasPageDirectory p := by
  constructor
  · rintro h ⟨names, hpage, hbelow⟩
    have hdirectory := htree.isDirectory_of_liesBelow hp hbelow
    have hfound := (htree.mem_pagesOf hdirectory).2 ⟨names, _, rfl, hpage, hbelow⟩
    obtain ⟨names', bytes, hsame, -, hfile⟩ := (h.pages hdirectory _).1 hfound
    obtain rfl := p.append_injective hsame
    cases hbelow.2.2.symm.trans hfile.2.2
  · intro h
    refine ⟨pagesOf_of_not_isDirectory, nodup_pagesOf fs p, sorted_pagesOf fs p, fun hdir q => ?_⟩
    rw [htree.mem_pagesOf hdir]
    constructor
    · rintro ⟨names, e, rfl, hpage, hbelow⟩
      cases e with
      | directory => exact absurd ⟨names, hpage, hbelow⟩ h
      | file bytes => exact ⟨names, bytes, rfl, hpage, hbelow⟩
    · rintro ⟨names, bytes, rfl, hpage, hbelow⟩
      exact ⟨names, _, rfl, hpage, hbelow⟩

/-- A directory with a page, and with another directory that is named like one. -/
def lookalikeSite : Files where
  files := [
    (["a", "index.html"], Utf8.encode "<p>a</p>".toList),
    (["a", "d.html", "x.txt"], Utf8.encode "x".toList)]

theorem isTree_lookalikeSite : lookalikeSite.IsTree :=
  ⟨by decide, by decide⟩

/-- **Not every path stands for pages only.** -/
theorem not_forall_findsPages :
    ¬ ∀ (fs : Files) (p : Path), fs.IsTree → fs.has p = true → fs.FindsPages p := by
  intro h
  have hfinds := h lookalikeSite (Path.read "a") isTree_lookalikeSite (by decide)
  refine (isTree_lookalikeSite.findsPages_iff (by decide)).1 hfinds ⟨["d.html"], by decide, ?_⟩
  exact ⟨by decide, by decide, by rfl⟩

end Files
end DocHighlighter
