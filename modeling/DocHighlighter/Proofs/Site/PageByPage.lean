/-
# A site, page by page

Rendering a site treats every page as if it were alone: each page before the first that
cannot be read or rendered holds what the page alone becomes with the engine as it was
given (`Files.pageAlone`), and every other file is as it was.  The report is the sum of
the reports of the pages.  So the order in which pages are rendered does not count
(`Files.renderSite_pageByPage`).

| what a page leaves behind | why the next page does not see it |
|---|---|
| the file that is written | the next page is another file |
| the engine with its lexers | it becomes like the engine at the start (`Host.BecomesLike`) |
| the report | reports are added up |

One page is a step (`Files.renderPage_ok`, `Files.renderPage_error`), and the run over all
pages follows by induction on their list (`Files.renderPages_pageByPage`).
-/

import DocHighlighter.Proofs.Render.Alike
import DocHighlighter.Proofs.Site.Files
import DocHighlighter.Site.Render
import Mathlib.Algebra.BigOperators.Group.List.Basic

namespace DocHighlighter

/-! ## Sums of reports -/

namespace RenderReport

theorem ext_counts {r s : RenderReport} (h₁ : r.filesScanned = s.filesScanned)
    (h₂ : r.filesChanged = s.filesChanged) (h₃ : r.fragmentsClassified = s.fragmentsClassified)
    (h₄ : r.fragmentsSkipped = s.fragmentsSkipped)
    (h₅ : r.blocksHighlighted = s.blocksHighlighted) (h₆ : r.copyButtons = s.copyButtons) :
    r = s := by
  cases r
  cases s
  simp_all

instance : Zero RenderReport := ⟨{}⟩

/-- Reports are added count by count. -/
instance : AddCommMonoid RenderReport where
  add_assoc r s t := by
    apply ext_counts <;> exact Int.add_assoc ..
  zero_add r := by
    apply ext_counts <;> exact Int.zero_add _
  add_zero r := by
    apply ext_counts <;> exact Int.add_zero _
  add_comm r s := by
    apply ext_counts <;> exact Int.add_comm ..
  nsmul := nsmulRec

end RenderReport

namespace Files

/-! ## One page -/

/-- What becomes of the bytes of a page that is rendered alone, and the report about it. -/
def pageAlone (fs : Files) (h : Host) (config : HighlightConfig) (p : Path) :
    Except SiteFault (List UInt8 × RenderReport) :=
  match fs.readBytes p with
  | .error fault => .error (.file fault)
  | .ok bytes =>
    match Utf8.decode bytes with
    | .error fault => .error (.file (.noText fault))
    | .ok decoded =>
      let text := Text.unifyNewlines decoded
      match (renderText text (some h) config).result with
      | .error fault => .error (.render fault)
      | .ok (rendered, report) =>
        if rendered = text then .ok (bytes, report)
        else .ok (Utf8.encode rendered, report + { filesChanged := 1 })

variable {fs : Files} {p : Path} {config : HighlightConfig} {a h b : Host}

theorem filesChanged_renderText {text html : List Char} {host : Option Host}
    {report : RenderReport} (h : (renderText text host config).result = .ok (html, report)) :
    report.filesChanged = 0 := by
  obtain ⟨hrender, -⟩ := renderText_ok_iff.1 h
  unfold Html.Page.render at hrender
  dsimp only at hrender
  split at hrender
  · cases hrender
  · split at hrender
    · cases hrender
    · obtain ⟨blocks, buttons, -, -, rfl⟩ := Html.Page.renderBlocks_ok_iff.1 hrender
      rfl

theorem filesChanged_eq_add {report : RenderReport} (h : report.filesChanged = 0) :
    ({ report with filesChanged := 1 } : RenderReport) = report + { filesChanged := 1 } := by
  apply RenderReport.ext_counts
  · exact (Int.add_zero _).symm
  · show (1 : Int) = report.filesChanged + 1
    rw [h]
    rfl
  all_goals exact (Int.add_zero _).symm

/-- What a page leaves behind: the file at its place holds some bytes, nothing else has changed, and
the engine becomes like what it became before. -/
structure LeavesBehind (fs : Files) (p : Path) (bytes : List UInt8) (a : Host) (r : SiteRendering) :
    Prop where
  place : ∃ place, fs.find p = .ok place ∧
    ∀ other, r.files.at? other = if other = place then some (.file bytes) else fs.at? other
  shape : fs.SameShape r.files
  host : ∃ b, r.host = some b ∧ a.BecomesLike b

/-- **One page of a site becomes what it becomes alone,** or stops the work and stays as it is. -/
theorem renderPage_cases (fs : Files) (p : Path) (config : HighlightConfig)
    (hh : a.BecomesLike h) (hb : a.BecomesLike b) :
    (∃ fault, fs.pageAlone h config p = .error fault ∧
      (fs.renderPage p (some b) config false).result = .error fault ∧
      (fs.renderPage p (some b) config false).files = fs) ∨
    ∃ bytes report, fs.pageAlone h config p = .ok (bytes, report) ∧
      (fs.renderPage p (some b) config false).result = .ok report ∧
      fs.LeavesBehind p bytes a (fs.renderPage p (some b) config false) := by
  unfold pageAlone renderPage readText
  cases hbytes : fs.readBytes p with
  | error fault => exact .inl ⟨.file fault, rfl, rfl, rfl⟩
  | ok bytes =>
    dsimp only
    cases hdecode : Utf8.decode bytes with
    | error fault => exact .inl ⟨.file (.noText fault), rfl, rfl, rfl⟩
    | ok decoded =>
      dsimp only
      obtain ⟨place, hfind, hplace⟩ := readBytes_eq_ok_iff.1 hbytes
      obtain ⟨hresult, b', hhost, hb'⟩ :=
        hh.renderText_eq hb (Text.unifyNewlines decoded) config
      rw [hresult]
      cases hrender : (renderText (Text.unifyNewlines decoded) (some h) config).result with
      | error fault => exact .inl ⟨.render fault, rfl, rfl, rfl⟩
      | ok answer =>
        obtain ⟨rendered, report⟩ := answer
        dsimp only
        by_cases hsame : rendered = Text.unifyNewlines decoded
        · rw [if_pos hsame, if_pos (beq_iff_eq.2 hsame)]
          refine .inr ⟨bytes, report, rfl, rfl, ⟨place, hfind, fun other => ?_⟩, .refl fs,
            b', hhost, hb'⟩
          split
          · next hother => rw [hother, hplace]
          · rfl
        · have hwrite : fs.writeText p rendered =
              .ok (fs.put place (Utf8.encode rendered)) := by
            simp only [writeText, hfind, hplace]
          rw [if_neg hsame, if_neg (by simpa using hsame), if_neg Bool.false_ne_true, hwrite,
            filesChanged_eq_add (filesChanged_renderText hrender)]
          exact .inr ⟨_, _, rfl, rfl, ⟨place, hfind, at?_put hplace _⟩, sameShape_put hplace _,
            b', hhost, hb'⟩

/-! ## All pages -/

/-- A page that has been rendered: its path, what its file holds, and the report about it. -/
structure DonePage where
  path : Path
  bytes : List UInt8
  report : RenderReport

/-- No two of some paths lead to one place. -/
def Distinct (fs : Files) (pages : List Path) : Prop :=
  pages.Pairwise fun p q => ∀ place, fs.find p = .ok place → fs.find q ≠ .ok place

/-- A run has done some pages as if each were alone, and has stopped before the rest. -/
structure PageByPage (fs : Files) (h : Host) (config : HighlightConfig) (done : List DonePage)
    (rest : List Path) (r : SiteRendering) : Prop where
  alone : ∀ d ∈ done, fs.pageAlone h config d.path = .ok (d.bytes, d.report)
  written : ∀ d ∈ done, ∃ place, fs.find d.path = .ok place ∧
    r.files.at? place = some (.file d.bytes)
  /-- The page that stopped the run, those behind it, and what is no page are as they were. -/
  others : ∀ place, (∀ d ∈ done, fs.find d.path ≠ .ok place) → r.files.at? place = fs.at? place
  ended : (rest = [] ∧ r.result = .ok (done.map DonePage.report).sum) ∨
    ∃ p more fault, rest = p :: more ∧ fs.pageAlone h config p = .error fault ∧
      r.result = .error fault

/-- What was counted before is added to what a run counts. -/
theorem renderPages_add (config : HighlightConfig) (pages : List Path) (fs : Files)
    (host : Option Host) (dryRun : Bool)
    (before total : RenderReport) :
    (renderPages config dryRun pages fs host (before + total)).files =
        (renderPages config dryRun pages fs host total).files ∧
      (renderPages config dryRun pages fs host (before + total)).result =
        (renderPages config dryRun pages fs host total).result.map (before + ·) := by
  induction pages generalizing fs host total with
  | nil => exact ⟨rfl, rfl⟩
  | cons p rest ih =>
    rw [renderPages, renderPages]
    dsimp only
    cases (fs.renderPage p host config dryRun).result with
    | error fault => exact ⟨rfl, rfl⟩
    | ok report =>
      dsimp only
      rw [add_assoc]
      exact ih ..

/-- A page alone does not see what another page leaves behind. -/
theorem LeavesBehind.pageAlone_eq {bytes : List UInt8} {r : SiteRendering} {q : Path}
    (hp : fs.LeavesBehind p bytes a r)
    (hne : ∀ place, fs.find p = .ok place → fs.find q ≠ .ok place) :
    r.files.pageAlone h config q = fs.pageAlone h config q := by
  obtain ⟨place, hfind, hplace⟩ := hp.place
  have hread : r.files.readBytes q = fs.readBytes q := by
    refine readBytes_congr (hp.shape.find_eq q) fun other hother => ?_
    rw [hplace, if_neg]
    rintro rfl
    exact hne other hfind hother
  rw [pageAlone, pageAlone, hread]

/-- A page in front of a run that goes page by page. -/
theorem PageByPage.cons {bytes : List UInt8} {report : RenderReport} {step run run' : SiteRendering}
    {done : List DonePage} {rest : List Path}
    (halone : fs.pageAlone h config p = .ok (bytes, report))
    (hleaves : fs.LeavesBehind p bytes a step)
    (hdistinct : ∀ q ∈ done.map DonePage.path ++ rest, ∀ place, fs.find p = .ok place →
      fs.find q ≠ .ok place)
    (hrun : step.files.PageByPage h config done rest run) (hfiles : run'.files = run.files)
    (hresult : run'.result = run.result.map (report + ·)) :
    fs.PageByPage h config (⟨p, bytes, report⟩ :: done) rest run' := by
  have hfind : ∀ q, step.files.find q = fs.find q := hleaves.shape.find_eq
  have hlater : ∀ q ∈ done.map DonePage.path ++ rest,
      step.files.pageAlone h config q = fs.pageAlone h config q :=
    fun q hq => hleaves.pageAlone_eq (hdistinct q hq)
  have hmem : ∀ d ∈ done, d.path ∈ done.map DonePage.path ++ rest :=
    fun d hd => List.mem_append_left _ (List.mem_map_of_mem hd)
  obtain ⟨place, hplace, hat⟩ := hleaves.place
  constructor
  case alone =>
    intro d hd
    rcases List.mem_cons.1 hd with rfl | hd
    · exact halone
    · rw [← hlater d.path (hmem d hd)]
      exact hrun.alone d hd
  case written =>
    intro d hd
    rw [hfiles]
    rcases List.mem_cons.1 hd with rfl | hd
    · refine ⟨place, hplace, ?_⟩
      rw [hrun.others place, hat, if_pos rfl]
      intro d' hd'
      rw [hfind]
      exact hdistinct d'.path (hmem d' hd') place hplace
    · obtain ⟨place', hplace', hwritten⟩ := hrun.written d hd
      exact ⟨place', (hfind d.path).symm.trans hplace', hwritten⟩
  case others =>
    intro other hother
    rw [hfiles, hrun.others other, hat, if_neg]
    · rintro rfl
      exact hother _ List.mem_cons_self hplace
    · intro d hd
      rw [hfind]
      exact hother d (List.mem_cons_of_mem _ hd)
  case ended =>
    rw [hresult]
    obtain ⟨rfl, hend⟩ | ⟨q, more, fault, rfl, hfault, hend⟩ := hrun.ended
    · exact .inl ⟨rfl, by rw [hend]; rfl⟩
    · refine .inr ⟨q, more, fault, rfl, ?_, by rw [hend]; rfl⟩
      rw [← hlater q (by simp)]
      exact hfault

/-- **A run does its pages one by one,** each as if it were alone: by induction on the pages, with
an engine that becomes like the one at the start. -/
theorem renderPages_pageByPage (config : HighlightConfig) (hh : a.BecomesLike h)
    {pages : List Path} (hdistinct : fs.Distinct pages) (hb : a.BecomesLike b) :
    ∃ done rest, pages = done.map DonePage.path ++ rest ∧
      fs.PageByPage h config done rest (renderPages config false pages fs (some b) 0) := by
  induction pages generalizing fs b with
  | nil => exact ⟨[], [], rfl, by simp, by simp, fun _ _ => rfl, .inl ⟨rfl, rfl⟩⟩
  | cons p pages ih =>
    obtain ⟨hp, hpages⟩ := List.pairwise_cons.1 hdistinct
    rw [renderPages]
    dsimp only
    obtain ⟨fault, halone, hresult, hfiles⟩ | ⟨bytes, report, halone, hresult, hleaves⟩ :=
      renderPage_cases fs p config hh hb
    · rw [hresult, hfiles]
      exact ⟨[], p :: pages, rfl, by simp, by simp, fun _ _ => rfl,
        .inr ⟨p, pages, fault, rfl, halone, rfl⟩⟩
    · obtain ⟨b', hhost, hb'⟩ := hleaves.host
      have hdistinct' : (fs.renderPage p (some b) config false).files.Distinct pages := by
        simpa only [Distinct, hleaves.shape.find_eq] using hpages
      obtain ⟨done, rest, rfl, hrun⟩ := ih hdistinct' hb'
      have hstart : (0 : RenderReport) + report = report + 0 := add_comm _ _
      obtain ⟨hfiles, hadd⟩ := renderPages_add config (done.map DonePage.path ++ rest)
        (fs.renderPage p (some b) config false).files (some b') false report 0
      rw [hresult, hhost]
      dsimp only
      rw [hstart]
      exact ⟨⟨p, bytes, report⟩ :: done, rest, rfl, .cons halone hleaves hp hrun hfiles hadd⟩

/-! ## The order of pages -/

theorem Distinct.perm {pages pages' : List Path} (h : fs.Distinct pages)
    (hperm : pages.Perm pages') : fs.Distinct pages' := by
  refine hperm.pairwise h fun {p q} hpq place hq hp => ?_
  exact hpq place hp hq

namespace PageByPage

variable {done done' : List DonePage} {rest rest' : List Path} {r r' : SiteRendering}
  {report : RenderReport}

/-- A run that gives a report has done all pages. -/
theorem of_ok (hr : fs.PageByPage h config done rest r) (hok : r.result = .ok report) :
    rest = [] ∧ report = (done.map DonePage.report).sum := by
  obtain ⟨hrest, hend⟩ | ⟨p, more, fault, -, -, hend⟩ := hr.ended
  · exact ⟨hrest, Except.ok.inj (hok.symm.trans hend)⟩
  · rw [hend] at hok
    cases hok

/-- The report about a page that is rendered alone. -/
def reportAlone (fs : Files) (h : Host) (config : HighlightConfig) (p : Path) : RenderReport :=
  match fs.pageAlone h config p with
  | .ok (_, report) => report
  | .error _ => 0

theorem map_report (hr : fs.PageByPage h config done rest r) :
    done.map DonePage.report = (done.map DonePage.path).map (reportAlone fs h config) := by
  rw [List.map_map]
  refine List.map_congr_left fun d hd => ?_
  rw [Function.comp_apply, reportAlone, hr.alone d hd]

/-- What holds what is the same after runs over the same pages. -/
theorem exists_written (hr : fs.PageByPage h config done rest r)
    (hr' : fs.PageByPage h config done' rest' r')
    (hmem : ∀ d ∈ done, d.path ∈ done'.map DonePage.path) :
    ∀ d ∈ done, ∀ place, fs.find d.path = .ok place → r'.files.at? place = r.files.at? place := by
  intro d hd place hplace
  obtain ⟨d', hd', hpath⟩ := List.mem_map.1 (hmem d hd)
  obtain ⟨place₁, hplace₁, hwritten⟩ := hr.written d hd
  obtain ⟨place₂, hplace₂, hwritten'⟩ := hr'.written d' hd'
  obtain rfl := Except.ok.inj (hplace.symm.trans hplace₁)
  rw [hpath] at hplace₂
  obtain rfl := Except.ok.inj (hplace.symm.trans hplace₂)
  have halone := hr'.alone d' hd'
  rw [hpath, hr.alone d hd] at halone
  rw [hwritten, hwritten', (Prod.mk.inj (Except.ok.inj halone)).1]

/-- **The order of the pages does not count:** if a run over some pages gives a report, then one
over the same pages in another order gives the same, and leaves the same files. -/
theorem of_perm (hr : fs.PageByPage h config done rest r)
    (hr' : fs.PageByPage h config done' rest' r')
    (hperm : (done.map DonePage.path ++ rest).Perm (done'.map DonePage.path ++ rest'))
    (hok : r.result = .ok report) :
    r'.result = .ok report ∧ ∀ place, r'.files.at? place = r.files.at? place := by
  obtain ⟨rfl, rfl⟩ := hr.of_ok hok
  rw [List.append_nil] at hperm
  obtain ⟨rfl, hend⟩ | ⟨p, more, fault, rfl, hfault, -⟩ := hr'.ended
  · rw [List.append_nil] at hperm
    have hmem : ∀ d ∈ done, d.path ∈ done'.map DonePage.path :=
      fun d hd => hperm.mem_iff.1 (List.mem_map_of_mem hd)
    have hmem' : ∀ d ∈ done', d.path ∈ done.map DonePage.path :=
      fun d hd => hperm.mem_iff.2 (List.mem_map_of_mem hd)
    refine ⟨?_, fun place => ?_⟩
    · rw [hend, hr.map_report, hr'.map_report]
      exact congrArg Except.ok (hperm.symm.map _).sum_eq
    · by_cases hdone : ∃ d ∈ done, fs.find d.path = .ok place
      · obtain ⟨d, hd, hplace⟩ := hdone
        exact hr.exists_written hr' hmem d hd place hplace
      · have hother : ∀ d ∈ done, fs.find d.path ≠ .ok place :=
          fun d hd hplace => hdone ⟨d, hd, hplace⟩
        rw [hr.others place hother, hr'.others place]
        intro d' hd'
        obtain ⟨d, hd, hpath⟩ := List.mem_map.1 (hmem' d' hd')
        rw [← hpath]
        exact hother d hd
  · obtain ⟨d, hd, rfl⟩ := List.mem_map.1 (hperm.mem_iff.2 (by simp : p ∈ _))
    rw [hr.alone d hd] at hfault
    cases hfault

end PageByPage

/-- **A site is rendered page by page.**  With a new engine whose grammars stand under their own
names, and paths that stand for distinct files, the pages before the one that stops the work hold
what each of them alone becomes, and every other file is as it was.  Without such a page the
report is the sum of theirs, and rendering the paths in another order gives the same report and the
same files. -/
theorem renderSite_pageByPage {fs : Files} {h : Host} (config : HighlightConfig) {paths : List Path}
    (hnew : h.engine.IsNew) (hnames : h.engine.NamesOwn) (hdistinct : fs.Distinct (fs.pages paths)) :
    ∃ done rest, fs.pages paths = done.map DonePage.path ++ rest ∧
      fs.PageByPage h config done rest (fs.renderSite paths (some h) config false) ∧
      (∀ p ∈ rest, ∀ place, fs.find p = .ok place →
        (fs.renderSite paths (some h) config false).files.at? place = fs.at? place) ∧
      ∀ paths', paths.Perm paths' → ∀ report,
        (fs.renderSite paths (some h) config false).result = .ok report →
        (fs.renderSite paths' (some h) config false).result = .ok report ∧
          ∀ place, (fs.renderSite paths' (some h) config false).files.at? place =
            (fs.renderSite paths (some h) config false).files.at? place := by
  obtain ⟨a, ha⟩ := Host.exists_becomesLike hnew hnames
  obtain ⟨done, rest, hsplit, hrun⟩ :=
    renderPages_pageByPage config ha hdistinct ha
  refine ⟨done, rest, hsplit, hrun, fun p hp place hplace => ?_, fun paths' hperm report hok => ?_⟩
  · refine hrun.others place fun d hd hfind => ?_
    rw [hsplit] at hdistinct
    have hpair := (List.pairwise_append.1 hdistinct).2.2 d.path (List.mem_map_of_mem hd) p hp
    exact hpair place hfind hplace
  · have hpages : (fs.pages paths).Perm (fs.pages paths') := hperm.flatMap_right fs.pagesOf
    obtain ⟨done', rest', hsplit', hrun'⟩ :=
      renderPages_pageByPage config ha (hdistinct.perm hpages) ha
    rw [hsplit, hsplit'] at hpages
    exact hrun.of_perm hrun' hpages hok

theorem distinct_of_nodup {pages : List Path} (h : (pages.map fs.find).Nodup) :
    fs.Distinct pages := by
  refine (List.pairwise_map.1 h).imp fun hne place hp hq => ?_
  exact hne (hp.trans hq.symm)

/-- A page, a file that is no text, and one that is no page. -/
def mixedSite : Files where
  files := [(["a.html"], Utf8.encode "<p>a</p>".toList), (["b.html"], [0xff]), (["c.txt"], [0x63])]

/-- The paths of the pages, and one that leads nowhere. -/
def mixedPaths : List Path :=
  [Path.read "a.html", Path.read "b.html", Path.read "d.html"]

/-- Such a site is rendered page by page. -/
theorem renderSite_mixedSite : ({ languages := Language.builtins } : Engine).IsNew ∧
    ({ languages := Language.builtins } : Engine).NamesOwn ∧
    mixedSite.Distinct (mixedSite.pages mixedPaths) ∧
    ∃ done rest, mixedSite.pages mixedPaths = done.map DonePage.path ++ rest ∧
      mixedSite.PageByPage { engine := { languages := Language.builtins } } {} done rest
        (mixedSite.renderSite mixedPaths (some { engine := { languages := Language.builtins } }) {}
          false) := by
  have hdistinct : mixedSite.Distinct (mixedSite.pages mixedPaths) :=
    distinct_of_nodup (by decide +kernel)
  obtain ⟨done, rest, hsplit, hrun, -⟩ := renderSite_pageByPage
    (h := { engine := { languages := Language.builtins } }) {} Engine.isNew_builtins
    Engine.namesOwn_builtins hdistinct
  exact ⟨Engine.isNew_builtins, Engine.namesOwn_builtins, hdistinct, done, rest, hsplit, hrun⟩

end Files
end DocHighlighter
