/-
# Dry runs

A dry run writes nothing, and it says what a real run would say (`Files.renderSite_dry`) as long as
no page that changes is visited again (`Files.ChangesOnce`): the dry run reads such a page as it
was, the real run as it has written it.  Pages that stay as they are may be visited any number of times.

For pages that stay rendered the condition is exact (`Files.renderSite_dry_iff`): the real run
changes such a page once, the dry run counts it at every visit.  So a file that is given twice is
reported as two changed files (`Files.not_forall_renderSite_dry`).

| lemma | says |
|---|---|
| `Files.renderPage_dry` | one page: the same answers, and the real run writes the page at most |
| `Files.renderPages_dry` | all pages, while the files read the same where the run goes on |
| `Files.filesChanged_le` | a real run changes no more files than the dry run counts |
-/

import DocHighlighter.Proofs.Site.PageByPage
import DocHighlighter.Proofs.Text.Newlines
import DocHighlighter.Proofs.Text.Utf8

namespace DocHighlighter

/-- Two runs say the same: they differ in the files that they leave at most. -/
structure SiteRendering.SaysTheSame (r r' : SiteRendering) : Prop where
  result : r'.result = r.result
  host : r'.host = r.host
  log : r'.log = r.log

theorem RenderReport.filesChanged_add (r s : RenderReport) :
    (r + s).filesChanged = r.filesChanged + s.filesChanged := rfl

namespace Files

variable {fs fs' : Files} {p : Path} {pages : List Path} {host : Option Host}
  {config : HighlightConfig}

/-! ## Nothing is written -/

theorem files_renderPage_dry (fs : Files) (p : Path) (host : Option Host)
    (config : HighlightConfig) : (fs.renderPage p host config true).files = fs := by
  unfold renderPage
  split
  · rfl
  · dsimp only
    split
    · rfl
    · split
      · rfl
      · rfl

theorem files_renderPages_dry (config : HighlightConfig) (pages : List Path) (fs : Files)
    (host : Option Host) (total : RenderReport) :
    (renderPages config true pages fs host total).files = fs := by
  induction pages generalizing host total with
  | nil => rfl
  | cons p rest ih =>
    rw [renderPages]
    dsimp only
    split
    · exact files_renderPage_dry fs p host config
    · rw [files_renderPage_dry]
      exact ih ..

/-! ## The same is said -/

/-- A page that a dry run would change. -/
def WouldChange (fs : Files) (p : Path) (host : Option Host) (config : HighlightConfig) : Prop :=
  ∃ report, (fs.renderPage p host config true).result = .ok report ∧ report.filesChanged ≠ 0

variable (host config) in
/-- **One page is said to become the same,** if it reads the same; and only where it would change
something is written, to the file of the page. -/
theorem renderPage_dry (hread : fs'.readText p = fs.readText p) :
    (fs.renderPage p host config true).SaysTheSame (fs'.renderPage p host config false) ∧
      ((fs'.renderPage p host config false).files = fs' ∨
        fs.WouldChange p host config ∧ ∃ place bytes old, fs'.find p = .ok place ∧
          fs'.at? place = some (.file old) ∧
          (fs'.renderPage p host config false).files = fs'.put place bytes) := by
  unfold WouldChange renderPage
  rw [hread]
  cases htext : fs.readText p with
  | error fault => exact ⟨⟨rfl, rfl, rfl⟩, .inl rfl⟩
  | ok text =>
    dsimp only
    cases hrender : (renderText text host config).result with
    | error fault => exact ⟨⟨rfl, rfl, rfl⟩, .inl rfl⟩
    | ok answer =>
      obtain ⟨rendered, report⟩ := answer
      dsimp only
      by_cases hsame : (rendered == text) = true
      · rw [if_pos hsame, if_pos hsame]
        exact ⟨⟨rfl, rfl, rfl⟩, .inl rfl⟩
      · obtain ⟨bytes, hbytes⟩ : ∃ bytes, fs'.readBytes p = .ok bytes := by
          rw [← hread, readText] at htext
          cases hb : fs'.readBytes p with
          | error fault => rw [hb] at htext; cases htext
          | ok bytes => exact ⟨bytes, rfl⟩
        obtain ⟨place, hfind, hplace⟩ := readBytes_eq_ok_iff.1 hbytes
        have hwrite : fs'.writeText p rendered = .ok (fs'.put place (Utf8.encode rendered)) := by
          simp only [writeText, hfind, hplace]
        rw [if_neg hsame, if_neg hsame, if_neg Bool.false_ne_true, if_pos rfl, hwrite]
        exact ⟨⟨rfl, rfl, rfl⟩, .inr ⟨⟨_, rfl, Int.one_ne_zero⟩, place, _, bytes, hfind, hplace,
          rfl⟩⟩

/-- A dry run that would change a page does not come to the file of that page again. -/
def ChangesOnce (fs : Files) (config : HighlightConfig) : List Path → Option Host → Prop
  | [], _ => True
  | p :: rest, host =>
    match (fs.renderPage p host config true).result with
    | .error _ => True
    | .ok report =>
      (report.filesChanged ≠ 0 →
        ∀ q ∈ rest, ∀ place, fs.find p = .ok place → fs.find q ≠ .ok place) ∧
      ChangesOnce fs config rest (fs.renderPage p host config true).host

/-- What holds of files that are all distinct. -/
theorem changesOnce_of_distinct (config : HighlightConfig) (h : fs.Distinct pages)
    (host : Option Host) : fs.ChangesOnce config pages host := by
  induction pages generalizing host with
  | nil => trivial
  | cons p rest ih =>
    obtain ⟨hp, hrest⟩ := List.pairwise_cons.1 h
    rw [ChangesOnce]
    split
    · trivial
    · exact ⟨fun _ => hp, ih hrest _⟩

/-- A page that stays as it is may come again. -/
theorem changesOnce_cons (hsame : ∀ report,
      (fs.renderPage p host config true).result = .ok report → report.filesChanged = 0)
    (hrest : ∀ host, fs.ChangesOnce config pages host) :
    fs.ChangesOnce config (p :: pages) host := by
  rw [ChangesOnce]
  split
  · trivial
  · next report hreport => exact ⟨fun hchange => absurd (hsame report hreport) hchange, hrest _⟩

/-- Files read like others at some paths. -/
structure ReadsLike (fs fs' : Files) (pages : List Path) : Prop where
  shape : fs.SameShape fs'
  same : ∀ p ∈ pages, ∀ place, fs.find p = .ok place → fs'.at? place = fs.at? place

theorem ReadsLike.refl (fs : Files) (pages : List Path) : fs.ReadsLike fs pages :=
  ⟨.refl fs, fun _ _ _ _ => rfl⟩

theorem ReadsLike.readText_eq (h : fs.ReadsLike fs' pages) (hp : p ∈ pages) :
    fs'.readText p = fs.readText p := by
  rw [readText, readText, readBytes_congr (h.shape.find_eq p) (h.same p hp)]

variable (host config) in
/-- Rendering a page leaves files that read the same at the later pages, unless it changes one of
them. -/
theorem ReadsLike.renderPage (h : fs.ReadsLike fs' (p :: pages))
    (honce : fs.WouldChange p host config →
      ∀ q ∈ pages, ∀ place, fs.find p = .ok place → fs.find q ≠ .ok place) :
    fs.ReadsLike (fs'.renderPage p host config false).files pages := by
  have hlater : fs.ReadsLike fs' pages :=
    ⟨h.shape, fun q hq => h.same q (List.mem_cons_of_mem _ hq)⟩
  rcases (renderPage_dry host config (h.readText_eq List.mem_cons_self)).2 with
    hsame | ⟨hchange, place, bytes, old, hfind, hold, hput⟩
  · rwa [hsame]
  · rw [hput]
    refine ⟨h.shape.trans (sameShape_put hold bytes), fun q hq other hother => ?_⟩
    rw [h.shape.find_eq] at hfind
    rw [at?_put hold, if_neg, hlater.same q hq other hother]
    rintro rfl
    exact honce hchange q hq other hfind hother

/-- **A dry run says what a real run says:** by induction on the pages, where the files of the real
run read like those of the dry run at all pages that are still to come. -/
theorem renderPages_dry (hlike : fs.ReadsLike fs' pages) (honce : fs.ChangesOnce config pages host)
    (total : RenderReport) :
    (renderPages config true pages fs host total).SaysTheSame
      (renderPages config false pages fs' host total) := by
  induction pages generalizing fs' host total with
  | nil => exact ⟨rfl, rfl, rfl⟩
  | cons p rest ih =>
    obtain ⟨hresult, hhost, hlog⟩ :=
      (renderPage_dry host config (hlike.readText_eq List.mem_cons_self)).1
    rw [renderPages, renderPages]
    dsimp only
    rw [hresult, hhost, hlog, files_renderPage_dry]
    rw [ChangesOnce] at honce
    cases hreport : (fs.renderPage p host config true).result with
    | error fault => exact ⟨rfl, rfl, rfl⟩
    | ok report =>
      rw [hreport] at honce
      have hnext := hlike.renderPage host config ?_
      · obtain ⟨hresult', hhost', hlog'⟩ := ih hnext honce.2 (total + report)
        exact ⟨hresult', hhost', congrArg (_ ++ ·) hlog'⟩
      · rintro ⟨report', hchange, hcount⟩
        obtain rfl := Except.ok.inj (hreport.symm.trans hchange)
        exact honce.1 hcount

/-! ## Sites -/

/-- The host that a site is rendered with: the one that is given, or a new one. -/
def hostFor (host : Option Host) (config : HighlightConfig) : Except EngineFault Host :=
  match host with
  | some h => .ok h
  | none => (Engine.create Language.builtins config.style).map fun e => { engine := e }

theorem renderSite_eq (fs : Files) (paths : List Path) (host : Option Host)
    (config : HighlightConfig) (dryRun : Bool) :
    fs.renderSite paths host config dryRun =
      match hostFor host config with
      | .ok h => renderPages config dryRun (fs.pages paths) fs (some h) {}
      | .error fault => ⟨.error (.engine fault), fs, none, []⟩ := by
  cases host with
  | some h => rfl
  | none =>
    rw [renderSite, hostFor]
    cases Engine.create Language.builtins config.style <;> rfl

/-- **A dry run writes nothing, and says what the real run would say,** if no page that would change
is visited again. -/
theorem renderSite_dry (fs : Files) (paths : List Path) (host : Option Host)
    (config : HighlightConfig) :
    (fs.renderSite paths host config true).files = fs ∧
      ((∀ h, hostFor host config = .ok h → fs.ChangesOnce config (fs.pages paths) (some h)) →
        (fs.renderSite paths host config true).SaysTheSame
          (fs.renderSite paths host config false)) := by
  rw [renderSite_eq, renderSite_eq]
  cases hostFor host config with
  | error fault => exact ⟨rfl, fun _ => ⟨rfl, rfl, rfl⟩⟩
  | ok h =>
    exact ⟨files_renderPages_dry .., fun honce => renderPages_dry (.refl fs _) (honce h rfl) {}⟩

/-- An engine that can neither register nor highlight. -/
def idleHost : Host where
  engine := { languages := [] }
  canRegister := false
  canHighlight := false

/-- A page with one fragment, and one without. -/
def fragmentSite : Files where
  files := [
    (["a.html"], Utf8.encode
      "<!DOCTYPE html><div class=\"fragment\"><div class=\"line\">@idl</div></div>".toList),
    (["b.html"], Utf8.encode "<!DOCTYPE html><p>b</p>".toList)]

/-- The page without a fragment, given twice, and the other one. -/
def fragmentPaths : List Path :=
  [Path.read "b.html", Path.read "a.html", Path.read "b.html"]

/-- A dry run over these pages says what a real run says. -/
theorem renderSite_dry_fragmentSite :
    fragmentSite.ChangesOnce {} (fragmentSite.pages fragmentPaths) (some idleHost) ∧
      (fragmentSite.renderSite fragmentPaths (some idleHost) {} true).files = fragmentSite ∧
      (fragmentSite.renderSite fragmentPaths (some idleHost) {} true).SaysTheSame
        (fragmentSite.renderSite fragmentPaths (some idleHost) {} false) := by
  have hpages : fragmentSite.pages fragmentPaths = fragmentPaths := by decide +kernel
  have hcount : Option.map RenderReport.filesChanged (Except.toOption
      (fragmentSite.renderPage (Path.read "b.html") (some idleHost) {} true).result) = some 0 := by
    decide +kernel
  have hdistinct : fragmentSite.Distinct [Path.read "a.html", Path.read "b.html"] :=
    distinct_of_nodup (by decide +kernel)
  have honce : fragmentSite.ChangesOnce {} (fragmentSite.pages fragmentPaths) (some idleHost) := by
    rw [hpages, fragmentPaths]
    refine changesOnce_cons (fun report hreport => ?_) (changesOnce_of_distinct {} hdistinct)
    rw [hreport] at hcount
    exact Option.some.inj hcount
  obtain ⟨hfiles, hsame⟩ := renderSite_dry fragmentSite fragmentPaths (some idleHost) {}
  exact ⟨honce, hfiles, hsame fun h hh => Except.ok.inj hh ▸ honce⟩

/-- **A dry run does not always say what the real run says:** a page with a fragment that is given
twice is two changed files to the dry run, and one to the real run. -/
theorem not_forall_renderSite_dry : ¬ ∀ (fs : Files) (paths : List Path) (host : Option Host)
    (config : HighlightConfig), (fs.renderSite paths host config true).result =
      (fs.renderSite paths host config false).result := by
  intro h
  have hsame := congrArg (fun r => r.toOption.map RenderReport.filesChanged)
    (h fragmentSite [Path.read "a.html", Path.read "a.html"] (some idleHost) {})
  revert hsame
  decide +kernel

/-! ## Pages that change and are visited again -/

section Again

variable {a h b b' : Host} {done : List Place} {place : Place}

/-- A page alone is counted as changed once at most. -/
theorem filesChanged_pageAlone {bytes : List UInt8} {report : RenderReport}
    (hpage : fs.pageAlone h config p = .ok (bytes, report)) :
    report.filesChanged = 0 ∨ report.filesChanged = 1 := by
  unfold pageAlone at hpage
  split at hpage
  · cases hpage
  · split at hpage
    · cases hpage
    · dsimp only at hpage
      split at hpage
      · cases hpage
      · next hrender =>
        have hzero := filesChanged_renderText hrender
        split at hpage
        · obtain ⟨-, rfl⟩ := Prod.mk.inj (Except.ok.inj hpage)
          exact .inl hzero
        · obtain ⟨-, rfl⟩ := Prod.mk.inj (Except.ok.inj hpage)
          rw [← filesChanged_eq_add hzero]
          exact .inr rfl

variable (fs p config) in
/-- A dry run says of a page what the page alone would become. -/
theorem result_renderPage_dry (hh : a.BecomesLike h) (hb : a.BecomesLike b) :
    (fs.renderPage p (some b) config true).result = (fs.pageAlone h config p).map (·.2) ∧
      ((fs.renderPage p (some b) config true).result.isOk = true →
        ∃ b', (fs.renderPage p (some b) config true).host = some b' ∧ a.BecomesLike b') := by
  obtain ⟨hresult, hhost, -⟩ :=
    (renderPage_dry (some b) config (rfl : fs.readText p = fs.readText p)).1
  rw [← hresult, ← hhost]
  obtain ⟨fault, halone, hfault, -⟩ | ⟨bytes, report, halone, hreport, hleaves⟩ :=
    renderPage_cases fs p config hh hb
  · rw [halone, hfault]
    exact ⟨rfl, fun hok => by cases hok⟩
  · rw [halone, hreport]
    exact ⟨rfl, fun _ => hleaves.host⟩

/-- What a page that stays rendered is written as is not changed again. -/
theorem pageAlone_again (hh : a.BecomesLike h)
    (hstay : ∀ text, fs.readText p = .ok text → StaysRendered text (some h) config)
    {bytes : List UInt8} {report : RenderReport}
    (hpage : fs.pageAlone h config p = .ok (bytes, report)) (hchange : report.filesChanged ≠ 0)
    {q : Path} (hread : fs'.readBytes q = .ok bytes) :
    ∃ report', fs'.pageAlone h config q = .ok (bytes, report') ∧ report'.filesChanged = 0 := by
  unfold readText at hstay
  unfold pageAlone at hpage
  cases hold : fs.readBytes p with
  | error fault => rw [hold] at hpage; cases hpage
  | ok old =>
    cases hdecode : Utf8.decode old with
    | error fault => simp only [hold, hdecode] at hpage; cases hpage
    | ok decoded =>
      simp only [hold, hdecode, Except.ok.injEq, forall_eq'] at hstay hpage
      cases hrender : (renderText (Text.unifyNewlines decoded) (some h) config).result with
      | error fault => rw [hrender] at hpage; cases hpage
      | ok answer =>
        obtain ⟨rendered, first⟩ := answer
        rw [hrender] at hpage
        have hzero := filesChanged_renderText hrender
        dsimp only at hpage
        split at hpage
        · obtain ⟨-, rfl⟩ := Prod.mk.inj (Except.ok.inj hpage)
          exact absurd hzero hchange
        · obtain ⟨rfl, -⟩ := Prod.mk.inj (Except.ok.inj hpage)
          obtain ⟨again, hagain, hidle⟩ := hstay rendered first hrender
          obtain ⟨-, b, hhost, hb⟩ := hh.renderText_eq hh (Text.unifyNewlines decoded) config
          rw [hhost, (hh.renderText_eq hb rendered config).1] at hagain
          have hshows := RenderReport.showsChange_eq_false_iff.2 hidle
          have hsecond : (renderText (Text.unifyNewlines rendered) (some h) config).result =
              .ok (Text.unifyNewlines rendered, again) := by
            refine renderText_ok_iff.2 ⟨?_, by simp [hshows]⟩
            rw [Html.Page.read_unifyNewlines]
            exact (renderText_ok_iff.1 hagain).1
          refine ⟨again, ?_, filesChanged_renderText hagain⟩
          simp only [pageAlone, hread, Utf8.decode_encode, hsecond, if_true]

/-- The files of a real run after some pages: those that were changed hold what stays as it is, the
others are as they were. -/
structure Ahead (fs fs' : Files) (h : Host) (config : HighlightConfig) (done : List Place) :
    Prop where
  shape : fs.SameShape fs'
  same : ∀ place, place ∉ done → fs'.at? place = fs.at? place
  settled : ∀ p place, fs.find p = .ok place → place ∈ done →
    ∃ bytes report, fs'.pageAlone h config p = .ok (bytes, report) ∧ report.filesChanged = 0

/-- A page alone depends on what its path leads to only. -/
theorem pageAlone_congr {q : Path} (hread : fs'.readBytes q = fs.readBytes p) :
    fs'.pageAlone h config q = fs.pageAlone h config p := by
  rw [pageAlone, pageAlone, hread]

/-- A page that is not changed keeps its bytes. -/
theorem readBytes_of_pageAlone {bytes : List UInt8} {report : RenderReport}
    (hpage : fs.pageAlone h config p = .ok (bytes, report)) (hsame : report.filesChanged = 0) :
    fs.readBytes p = .ok bytes := by
  unfold pageAlone at hpage
  split at hpage
  · cases hpage
  · next old hold =>
    split at hpage
    · cases hpage
    · dsimp only at hpage
      split at hpage
      · cases hpage
      · next hrender =>
        split at hpage
        · obtain ⟨rfl, -⟩ := Prod.mk.inj (Except.ok.inj hpage)
          exact hold
        · obtain ⟨-, rfl⟩ := Prod.mk.inj (Except.ok.inj hpage)
          rw [← filesChanged_eq_add (filesChanged_renderText hrender)] at hsame
          exact absurd hsame Int.one_ne_zero

/-- A page that was not changed so far is what it was. -/
theorem Ahead.pageAlone_eq (hahead : fs.Ahead fs' h config done) (hfind : fs.find p = .ok place)
    (hnew : place ∉ done) : fs'.pageAlone h config p = fs.pageAlone h config p := by
  refine pageAlone_congr (readBytes_congr (hahead.shape.find_eq p) fun other hother => ?_)
  obtain rfl := Except.ok.inj (hfind.symm.trans hother)
  exact hahead.same place hnew

/-- Nothing has changed. -/
theorem Ahead.of_at? {fs'' : Files} (hahead : fs.Ahead fs' h config done)
    (hshape : fs'.SameShape fs'') (hat : ∀ place, fs''.at? place = fs'.at? place) :
    fs.Ahead fs'' h config done where
  shape := hahead.shape.trans hshape
  same := fun place hplace => (hat place).trans (hahead.same place hplace)
  settled := fun p place hfind hplace => by
    obtain ⟨bytes, report, hpage, hzero⟩ := hahead.settled p place hfind hplace
    refine ⟨bytes, report, ?_, hzero⟩
    rw [pageAlone_congr (readBytes_congr (hshape.find_eq p) fun other _ => hat other), hpage]

/-- One file has changed, to what stays as it is. -/
theorem Ahead.cons {fs'' : Files} {bytes : List UInt8} (hahead : fs.Ahead fs' h config done)
    (hshape : fs'.SameShape fs'')
    (hat : ∀ other, fs''.at? other = if other = place then some (.file bytes) else fs'.at? other)
    (hsettled : ∀ q, fs''.readBytes q = .ok bytes →
      ∃ report, fs''.pageAlone h config q = .ok (bytes, report) ∧ report.filesChanged = 0) :
    fs.Ahead fs'' h config (place :: done) where
  shape := hahead.shape.trans hshape
  same := fun other hother => by
    obtain ⟨hne, hother⟩ := not_or.1 fun hmem => hother (List.mem_cons.2 hmem)
    rw [hat, if_neg hne, hahead.same other hother]
  settled := fun q other hq hmem => by
    have hfind : fs''.find q = .ok other := by rw [hshape.find_eq, hahead.shape.find_eq, hq]
    by_cases heq : other = place
    · exact ⟨bytes, hsettled q (readBytes_eq_ok_iff.2 ⟨other, hfind, by rw [hat, if_pos heq]⟩)⟩
    · obtain ⟨bytes', report, hpage, hzero⟩ :=
        hahead.settled q other hq ((List.mem_cons.1 hmem).resolve_left heq)
      refine ⟨bytes', report, ?_, hzero⟩
      rw [← hpage]
      refine pageAlone_congr (readBytes_congr (hshape.find_eq q) fun place' hplace' => ?_)
      rw [hahead.shape.find_eq, hq] at hplace'
      obtain rfl := Except.ok.inj hplace'
      rw [hat, if_neg heq]

/-- **A page of the real run** either stays as it is, because it was changed before or need not be
changed, or is changed for the first time. -/
theorem Ahead.renderPage (hahead : fs.Ahead fs' h config done) (hh : a.BecomesLike h)
    (hb' : a.BecomesLike b')
    (hstay : ∀ text, fs.readText p = .ok text → StaysRendered text (some h) config)
    {bytes : List UInt8} {report : RenderReport}
    (hpage : fs.pageAlone h config p = .ok (bytes, report)) (hfind : fs.find p = .ok place) :
    ∃ report' b'', (fs'.renderPage p (some b') config false).result = .ok report' ∧
      (fs'.renderPage p (some b') config false).host = some b'' ∧ a.BecomesLike b'' ∧
      ((place ∈ done ∨ report.filesChanged = 0) ∧ report'.filesChanged = 0 ∧
          fs.Ahead (fs'.renderPage p (some b') config false).files h config done ∨
        place ∉ done ∧ report.filesChanged = 1 ∧ report'.filesChanged = 1 ∧
          fs.Ahead (fs'.renderPage p (some b') config false).files h config (place :: done)) := by
  obtain ⟨bytes', report', hreal, hkind⟩ : ∃ bytes' report',
      fs'.pageAlone h config p = .ok (bytes', report') ∧
        (place ∈ done ∧ report'.filesChanged = 0 ∨
          place ∉ done ∧ bytes' = bytes ∧ report' = report) := by
    by_cases hdone : place ∈ done
    · obtain ⟨bytes', report', hsettled, hzero⟩ := hahead.settled p place hfind hdone
      exact ⟨bytes', report', hsettled, .inl ⟨hdone, hzero⟩⟩
    · exact ⟨bytes, report, (hahead.pageAlone_eq hfind hdone).trans hpage,
        .inr ⟨hdone, rfl, rfl⟩⟩
  obtain ⟨fault, halone, -, -⟩ | ⟨bytes₁, report₁, halone, hresult, hleaves⟩ :=
    renderPage_cases fs' p config hh hb'
  · rw [hreal] at halone
    cases halone
  obtain ⟨rfl, rfl⟩ := Prod.mk.inj (Except.ok.inj (hreal.symm.trans halone))
  obtain ⟨place', hplace', hat⟩ := hleaves.place
  obtain rfl := Except.ok.inj (hfind.symm.trans ((hahead.shape.find_eq p).symm.trans hplace'))
  obtain ⟨b'', hhost, hb''⟩ := hleaves.host
  refine ⟨report', b'', hresult, hhost, hb'', ?_⟩
  by_cases hstays : report'.filesChanged = 0
  · obtain ⟨other, hother, hfile⟩ := readBytes_eq_ok_iff.1 (readBytes_of_pageAlone hreal hstays)
    obtain rfl := Except.ok.inj (hplace'.symm.trans hother)
    refine .inl ⟨hkind.imp And.left fun ⟨_, _, hsame⟩ => hsame ▸ hstays, hstays,
      hahead.of_at? hleaves.shape fun other => ?_⟩
    rw [hat]
    split
    · next heq => rw [heq, hfile]
    · rfl
  · obtain ⟨hnew, rfl, rfl⟩ := hkind.resolve_left fun hdone => hstays hdone.2
    have hone := (filesChanged_pageAlone hreal).resolve_left hstays
    exact .inr ⟨hnew, hone, hone,
      hahead.cons hleaves.shape hat fun q hq => pageAlone_again hh hstay hpage hstays hq⟩

/-- **A real run changes no more files than a dry run counts,** and as many only if no page that
changes is visited again: by induction on the pages, with the places of those that were changed. -/
theorem filesChanged_le (hh : a.BecomesLike h)
    (hstay : ∀ p ∈ pages, ∀ text, fs.readText p = .ok text → StaysRendered text (some h) config)
    (hahead : fs.Ahead fs' h config done) (hb : a.BecomesLike b) (hb' : a.BecomesLike b')
    {total report : RenderReport} (total' : RenderReport)
    (hdry : (renderPages config true pages fs (some b) total).result = .ok report) :
    ∃ report', (renderPages config false pages fs' (some b') total').result = .ok report' ∧
      report'.filesChanged - total'.filesChanged ≤ report.filesChanged - total.filesChanged ∧
      (report'.filesChanged - total'.filesChanged = report.filesChanged - total.filesChanged →
        (∀ p ∈ pages, ∀ bytes r, fs.pageAlone h config p = .ok (bytes, r) → r.filesChanged ≠ 0 →
          ∀ place ∈ done, fs.find p ≠ .ok place) ∧
        fs.ChangesOnce config pages (some b)) := by
  induction pages generalizing fs' b b' done total total' with
  | nil =>
    obtain rfl := Except.ok.inj hdry
    exact ⟨total', rfl, by simp, fun _ => ⟨by simp, trivial⟩⟩
  | cons p rest ih =>
    obtain ⟨hstayp, hstayrest⟩ := List.forall_mem_cons.1 hstay
    obtain ⟨hresult, hhost⟩ := result_renderPage_dry fs p config hh hb
    rw [renderPages] at hdry
    dsimp only at hdry
    rw [ChangesOnce]
    obtain ⟨fault, halone, -, -⟩ | ⟨bytes, r, halone, -, hleaves⟩ :=
      renderPage_cases fs p config hh hb
    · rw [hresult, halone] at hdry
      cases hdry
    rw [halone] at hresult
    obtain ⟨b₁, hb₁eq, hb₁⟩ := hhost (by rw [hresult]; rfl)
    obtain ⟨place, hfind, -⟩ := hleaves.place
    obtain ⟨r', b₂, hreal, hb₂eq, hb₂, hcase⟩ := hahead.renderPage hh hb' hstayp halone hfind
    rw [hresult, files_renderPage_dry, hb₁eq] at hdry
    rw [renderPages, hresult, hb₁eq]
    dsimp only [Except.map] at hdry ⊢
    rw [hreal, hb₂eq]
    dsimp only
    obtain ⟨hstays, hzero, hnext⟩ | ⟨hnew, hone, hone', hnext⟩ := hcase
    · obtain ⟨report', hreport', hle, heq⟩ := ih hstayrest hnext hb₁ hb₂ (total' + r') hdry
      have hbounds := filesChanged_pageAlone halone
      simp only [RenderReport.filesChanged_add] at hle heq
      refine ⟨report', hreport', by omega, fun hsame => ?_⟩
      have hunchanged : r.filesChanged = 0 := by omega
      obtain ⟨hrest, honce⟩ := heq (by omega)
      refine ⟨List.forall_mem_cons.2 ⟨fun bytes' r₁ hpage hchange => ?_, hrest⟩,
        fun hchange => absurd hunchanged hchange, honce⟩
      obtain ⟨-, rfl⟩ := Prod.mk.inj (Except.ok.inj (halone.symm.trans hpage))
      exact absurd hunchanged hchange
    · obtain ⟨report', hreport', hle, heq⟩ := ih hstayrest hnext hb₁ hb₂ (total' + r') hdry
      simp only [RenderReport.filesChanged_add] at hle heq
      refine ⟨report', hreport', by omega, fun hsame => ?_⟩
      obtain ⟨hrest, honce⟩ := heq (by omega)
      refine ⟨List.forall_mem_cons.2 ⟨fun _ _ _ _ place' hmem hfind' => ?_, ?_⟩,
        fun hchange q hq place' hfind' hfindq => ?_, honce⟩
      · obtain rfl := Except.ok.inj (hfind.symm.trans hfind')
        exact hnew hmem
      · exact fun q hq bytes' r₁ hpage hchange place' hmem =>
          hrest q hq bytes' r₁ hpage hchange place' (List.mem_cons_of_mem _ hmem)
      · obtain rfl := Except.ok.inj (hfind.symm.trans hfind')
        have hsame : fs.pageAlone h config q = fs.pageAlone h config p :=
          pageAlone_congr (readBytes_congr_find (hfindq.trans hfind.symm))
        exact hrest q hq bytes r (hsame.trans halone) hchange place List.mem_cons_self hfindq

/-- **For pages that stay rendered the condition is exact.**  With a new engine whose grammars stand
under their own names, a dry run that gives a report gives that of the real run exactly if no page
that would change is visited again. -/
theorem renderSite_dry_iff {h : Host} (config : HighlightConfig) {paths : List Path}
    (hnew : h.engine.IsNew) (hnames : h.engine.NamesOwn)
    (hstay : ∀ p ∈ fs.pages paths, ∀ text, fs.readText p = .ok text →
      StaysRendered text (some h) config) {report : RenderReport}
    (hdry : (fs.renderSite paths (some h) config true).result = .ok report) :
    (fs.renderSite paths (some h) config false).result = .ok report ↔
      fs.ChangesOnce config (fs.pages paths) (some h) := by
  constructor
  · intro hreal
    obtain ⟨a, ha⟩ := Host.exists_becomesLike hnew hnames
    have hstart : fs.Ahead fs h config [] :=
      ⟨.refl fs, fun _ _ => rfl, fun _ _ _ hmem => absurd hmem List.not_mem_nil⟩
    obtain ⟨report', hreport', -, heq⟩ :=
      filesChanged_le ha hstay hstart ha ha {} hdry
    obtain rfl := Except.ok.inj (hreal.symm.trans hreport')
    exact (heq rfl).2
  · intro honce
    have hsame := (renderSite_dry fs paths (some h) config).2 fun h' hh' =>
      Except.ok.inj hh' ▸ honce
    rw [hsame.result, hdry]

end Again

end Files
end DocHighlighter
