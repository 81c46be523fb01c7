/-
# When the work on a site ends

A site is rendered page by page, and a page that cannot be read ends the work.  An engine that
lexes every text (`Host.LexesAll`) goes on to do so from page to page.  It ends well on pages that
are files with texts, and stops at the first one that is a directory
(`Files.renderPages_of_holdsText`).

So whether the work on directories of pages ends well depends on the names of the directories: it
does exactly if none of them is named like a page (`Files.pages_discovered`).
-/

import DocHighlighter.Proofs.Render.Ends
import DocHighlighter.Proofs.Site.Discovery
import DocHighlighter.Proofs.Site.DryRun

namespace DocHighlighter

namespace Files

variable {fs fs' : Files} {p : Path} {e : Entry} {pages : List Path} {host : Option Host}
  {config : HighlightConfig}

/-- If a path leads to a file, that holds a text. -/
def HoldsText (fs : Files) (p : Path) : Prop :=
  ∀ bytes, fs.readBytes p = .ok bytes → ∃ text, Utf8.decode bytes = .ok text

/-- Where a path leads to a file, it still does, and so where it leads to a directory. -/
theorem SameShape.exists_entry (hshape : fs.SameShape fs') (hp : fs.entry p = .ok e) :
    ∃ e', fs'.entry p = .ok e' ∧ e'.isFile = e.isFile := by
  obtain ⟨place, hfind, he⟩ := entry_eq_ok_iff.1 hp
  have hkind := hshape.isFile place
  rw [he] at hkind
  obtain ⟨e', he', hsame⟩ := Option.map_eq_some_iff.1 hkind
  exact ⟨e', entry_eq_ok_iff.2 ⟨place, (hshape.find_eq p).trans hfind, he'⟩, hsame⟩

theorem SameShape.isFile_of (hshape : fs.SameShape fs') (hp : fs.isFile p = true) :
    fs'.isFile p = true := by
  obtain ⟨bytes, hfile⟩ := isFile_iff.1 hp
  obtain ⟨e', he', hkind⟩ := hshape.exists_entry hfile
  cases e' with
  | file bytes' => exact isFile_iff.2 ⟨bytes', he'⟩
  | directory => cases hkind

theorem SameShape.isDirectory_of (hshape : fs.SameShape fs') (hp : fs.isDirectory p = true) :
    fs'.isDirectory p = true := by
  obtain ⟨e', he', hkind⟩ := hshape.exists_entry (isDirectory_iff.1 hp)
  cases e' with
  | file bytes' => cases hkind
  | directory => exact isDirectory_iff.2 he'

theorem isFile_iff_readBytes : fs.isFile p = true ↔ ∃ bytes, fs.readBytes p = .ok bytes := by
  simp only [isFile_iff, entry_eq_ok_iff, readBytes_eq_ok_iff]

/-- Where a file is given a text, every file that held one still does. -/
theorem HoldsText.put {place : Place} {old : List UInt8} {q : Path} (hq : fs.HoldsText q)
    (hold : fs.at? place = some (.file old)) (text : List Char) :
    (fs.put place (Utf8.encode text)).HoldsText q := by
  intro bytes hbytes
  obtain ⟨other, hfind, hother⟩ := readBytes_eq_ok_iff.1 hbytes
  rw [(sameShape_put hold _).find_eq] at hfind
  rw [at?_put hold] at hother
  split at hother
  · obtain rfl := Entry.file.inj (Option.some.inj hother)
    exact ⟨text, Utf8.decode_encode text⟩
  · exact hq bytes (readBytes_eq_ok_iff.2 ⟨other, hfind, hother⟩)

/-- What a page leaves behind for those after it: an engine that lexes every text, files and
directories where they were, and texts in the files that held texts. -/
structure LeavesTexts (fs : Files) (r : SiteRendering) : Prop where
  host : Host.LexesAll (Host.registerAll r.host).2.1
  shape : fs.SameShape r.files
  texts : ∀ q, fs.HoldsText q → r.files.HoldsText q

/-- **A file that holds a text is rendered,** in a dry run or not. -/
theorem renderPage_of_holdsText (hhost : Host.LexesAll (Host.registerAll host).2.1)
    (hfile : fs.isFile p = true) (htext : fs.HoldsText p) (config : HighlightConfig)
    (dryRun : Bool) : (∃ report, (fs.renderPage p host config dryRun).result = .ok report) ∧
      fs.LeavesTexts (fs.renderPage p host config dryRun) := by
  obtain ⟨bytes, hbytes⟩ := isFile_iff_readBytes.1 hfile
  obtain ⟨text, hdecode⟩ := htext bytes hbytes
  have hread : fs.readText p = .ok (Text.unifyNewlines text) := by
    simp only [readText, hbytes, hdecode]
  obtain ⟨place, hfind, hplace⟩ := readBytes_eq_ok_iff.1 hbytes
  obtain ⟨⟨⟨rendered, report⟩, hrendered⟩, hnext⟩ :=
    renderText_of_lexesAll hhost (Text.unifyNewlines text) config
  rw [renderPage, hread]
  dsimp only
  rw [hrendered]
  dsimp only
  split
  · exact ⟨⟨report, rfl⟩, hnext, .refl fs, fun _ hq => hq⟩
  · split
    · exact ⟨⟨_, rfl⟩, hnext, .refl fs, fun _ hq => hq⟩
    · have hwrite : fs.writeText p rendered = .ok (fs.put place (Utf8.encode rendered)) := by
        simp only [writeText, hfind, hplace]
      rw [hwrite]
      exact ⟨⟨_, rfl⟩, hnext, sameShape_put hplace _, fun q hq => hq.put hplace rendered⟩

/-- A directory cannot be read, and ends the work. -/
theorem renderPage_of_isDirectory (hp : fs.isDirectory p = true) (host : Option Host)
    (config : HighlightConfig) (dryRun : Bool) :
    (fs.renderPage p host config dryRun).result = .error (.file .isDirectory) := by
  simp only [renderPage, readText, readBytes, isDirectory_iff.1 hp]

/-- **A run ends at the first page that is a directory,** and well if there is none: by induction on
the pages, with what each of them leaves behind. -/
theorem renderPages_of_holdsText (hhost : Host.LexesAll (Host.registerAll host).2.1)
    (hthere : ∀ q ∈ pages, fs.isFile q = true ∨ fs.isDirectory q = true)
    (htexts : ∀ q ∈ pages, fs.HoldsText q) (config : HighlightConfig) (dryRun : Bool)
    (total : RenderReport) :
    ((∀ q ∈ pages, fs.isFile q = true) →
      ∃ report, (renderPages config dryRun pages fs host total).result = .ok report) ∧
    ((∃ q ∈ pages, fs.isDirectory q = true) →
      (renderPages config dryRun pages fs host total).result = .error (.file .isDirectory)) := by
  induction pages generalizing fs host total with
  | nil =>
    refine ⟨fun _ => ⟨total, rfl⟩, ?_⟩
    rintro ⟨q, hq, -⟩
    cases hq
  | cons p rest ih =>
    obtain ⟨hp, hrest⟩ := List.forall_mem_cons.1 hthere
    obtain ⟨htext, htexts⟩ := List.forall_mem_cons.1 htexts
    rw [renderPages]
    dsimp only
    rcases hp with hfile | hdirectory
    · obtain ⟨⟨report, hresult⟩, hleaves⟩ :=
        renderPage_of_holdsText hhost hfile htext config dryRun
      obtain ⟨hends, hstops⟩ := ih hleaves.host
        (fun q hq => (hrest q hq).imp hleaves.shape.isFile_of hleaves.shape.isDirectory_of)
        (fun q hq => hleaves.texts q (htexts q hq)) (total + report)
      rw [hresult]
      refine ⟨fun hall => hends fun q hq => ?_, fun hsome => hstops ?_⟩
      · exact hleaves.shape.isFile_of (hall q (List.mem_cons_of_mem _ hq))
      · obtain ⟨q, hq, hdir⟩ := hsome
        rcases List.mem_cons.1 hq with rfl | hq
        · rw [isFile_iff] at hfile
          rw [isDirectory_iff] at hdir
          obtain ⟨bytes, hbytes⟩ := hfile
          cases hdir.symm.trans hbytes
        · exact ⟨q, hq, hleaves.shape.isDirectory_of hdir⟩
    · rw [renderPage_of_isDirectory hdirectory]
      refine ⟨fun hall => ?_, fun _ => rfl⟩
      obtain ⟨bytes, hbytes⟩ := isFile_iff.1 (hall p List.mem_cons_self)
      cases (isDirectory_iff.1 hdirectory).symm.trans hbytes

/-! ## Sites -/

/-- Every page below a directory that is a file holds a text. -/
def HoldsTexts (fs : Files) (p : Path) : Prop :=
  ∀ names bytes, isPageAt names = true → fs.LiesBelow p names (.file bytes) →
    ∃ text, Utf8.decode bytes = .ok text

theorem holdsTexts_of_files (h : ∀ f ∈ fs.files, ∃ text, Utf8.decode f.2 = .ok text) (p : Path) :
    fs.HoldsTexts p := by
  rintro names bytes - ⟨-, -, he⟩
  obtain ⟨place, -, hplace⟩ := entry_eq_ok_iff.1 he
  obtain ⟨before, after, hfiles, -⟩ := List.lookup_eq_some_iff.1 (lookup_of_at? hplace)
  exact h (place, bytes) (by simp [hfiles])

variable {paths : List Path}

/-- What is found in directories leads to files and directories, and the files hold texts. -/
theorem IsTree.pages_of_directories (htree : fs.IsTree)
    (hdirs : ∀ p ∈ paths, fs.isDirectory p = true) (htexts : ∀ p ∈ paths, fs.HoldsTexts p) :
    (∀ q ∈ fs.pages paths, fs.isFile q = true ∨ fs.isDirectory q = true) ∧
      (∀ q ∈ fs.pages paths, fs.HoldsText q) ∧
      ((∃ q ∈ fs.pages paths, fs.isDirectory q = true) ↔ ∃ p ∈ paths, fs.HasPageDirectory p) := by
  have hmem : ∀ q, q ∈ fs.pages paths ↔ ∃ p ∈ paths, ∃ names e,
      q = p.append names ∧ isPageAt names = true ∧ fs.LiesBelow p names e := by
    intro q
    rw [pages, List.mem_flatMap]
    exact exists_congr fun p => and_congr_right fun hp => htree.mem_pagesOf (hdirs p hp)
  refine ⟨fun q hq => ?_, fun q hq bytes hbytes => ?_, ?_⟩
  · obtain ⟨p, -, names, e, rfl, -, -, -, he⟩ := (hmem q).1 hq
    cases e with
    | file bytes => exact .inl (isFile_iff.2 ⟨bytes, he⟩)
    | directory => exact .inr (isDirectory_iff.2 he)
  · obtain ⟨p, hp, names, e, rfl, hpage, hbelow⟩ := (hmem q).1 hq
    have hfile := entry_eq_ok_iff.2 (readBytes_eq_ok_iff.1 hbytes)
    obtain rfl := Except.ok.inj (hbelow.2.2.symm.trans hfile)
    exact htexts p hp names bytes hpage hbelow
  · constructor
    · rintro ⟨q, hq, hdir⟩
      obtain ⟨p, hp, names, e, rfl, hpage, hbelow⟩ := (hmem q).1 hq
      obtain rfl := Except.ok.inj (hbelow.2.2.symm.trans (isDirectory_iff.1 hdir))
      exact ⟨p, hp, names, hpage, hbelow⟩
    · rintro ⟨p, hp, names, hpage, hbelow⟩
      exact ⟨p.append names, (hmem _).2 ⟨p, hp, names, _, rfl, hpage, hbelow⟩,
        isDirectory_iff.2 hbelow.2.2⟩

/-- **Which pages a site has, and whether the work on it ends:** a path stands for pages only
exactly if no directory below is named like one.  And if the grammars of the engine all compile,
with the definitions registered, and its lexers give tokens for every text, the work on directories
whose pages hold texts ends well exactly then: else it stops at a directory that is taken for a
page. -/
theorem pages_discovered (htree : fs.IsTree) (hthere : ∀ p ∈ paths, fs.has p = true) :
    fs.pages paths = paths.flatMap fs.pagesOf ∧
      (∀ p ∈ paths, fs.FindsPages p ↔ ¬ fs.HasPageDirectory p) ∧
      (∀ p ∈ paths, fs.isDirectory p = true → ∀ q, q ∈ fs.pagesOf p ↔
        ∃ names e, q = p.append names ∧ isPageAt names = true ∧ fs.LiesBelow p names e) ∧
      ∀ host h config dryRun, hostFor host config = .ok h →
        Host.LexesAll (Host.registerAll (some h)).2.1 → (∀ p ∈ paths, fs.isDirectory p = true) →
        (∀ p ∈ paths, fs.HoldsTexts p) →
        ((∀ p ∈ paths, ¬ fs.HasPageDirectory p) →
          ∃ report, (fs.renderSite paths host config dryRun).result = .ok report) ∧
        ((∃ p ∈ paths, fs.HasPageDirectory p) →
          (fs.renderSite paths host config dryRun).result = .error (.file .isDirectory)) := by
  refine ⟨rfl, fun p hp => htree.findsPages_iff (hthere p hp), fun p _ hdir q =>
    htree.mem_pagesOf hdir, fun host h config dryRun hhost hlexes hdirs htexts => ?_⟩
  obtain ⟨hkinds, hpages, hdirectories⟩ := htree.pages_of_directories hdirs htexts
  obtain ⟨hends, hstops⟩ := renderPages_of_holdsText hlexes hkinds hpages config dryRun {}
  rw [renderSite_eq, hhost]
  refine ⟨fun hnone => hends fun q hq => ?_, fun hsome => hstops (hdirectories.2 hsome)⟩
  refine (hkinds q hq).resolve_right fun hdir => ?_
  obtain ⟨p, hp, hpage⟩ := hdirectories.1 ⟨q, hq, hdir⟩
  exact hnone p hp hpage

/-- With the built-in languages, the work on a site with a directory named like a page does not end
well. -/
theorem pages_discovered_lookalikeSite :
    lookalikeSite.IsTree ∧ (∀ p ∈ [Path.read "a"], lookalikeSite.has p = true) ∧
      lookalikeSite.HasPageDirectory (Path.read "a") ∧
      (lookalikeSite.renderSite [Path.read "a"] none {} false).result =
        .error (.file .isDirectory) := by
  have hthere : ∀ p ∈ [Path.read "a"], lookalikeSite.has p = true := by decide
  have hpage : lookalikeSite.HasPageDirectory (Path.read "a") :=
    ⟨["d.html"], by decide, by decide, by decide, by rfl⟩
  have htexts : ∀ f ∈ lookalikeSite.files, ∃ text, Utf8.decode f.2 = .ok text := by
    intro f hf
    rcases List.mem_cons.1 hf with rfl | hf
    · exact ⟨_, Utf8.decode_encode _⟩
    · obtain rfl := List.mem_singleton.1 hf
      exact ⟨_, Utf8.decode_encode _⟩
  obtain ⟨-, -, -, hends⟩ := pages_discovered isTree_lookalikeSite hthere
  obtain ⟨-, hstops⟩ := hends none _ {} false rfl (Host.lexesAll_builtins _) (by decide)
    fun p _ => holdsTexts_of_files htexts p
  exact ⟨isTree_lookalikeSite, hthere, hpage, hstops ⟨_, List.mem_singleton_self _, hpage⟩⟩

end Files
end DocHighlighter
