/-
# Failures that are told

A path that leads nowhere and a language that no one knows are no faults: the command tells them on
the console and ends with status 1.  What it tells is the text that was given, put into a message
as it is.  But a message may hold tags, so the text is read for tags too
(`Command.failures_told`):

| text | the command |
|---|---|
| plain (`Console.IsPlain`) | tells it, with status 1 |
| readable, but not plain (`Console.isReadable`) | tells something else, with status 1 |
| not readable | tells nothing more, and ends with a fault |

So not every failure is told (`Command.not_forall_failures_told`).
-/

import DocHighlighter.Command.Run
import DocHighlighter.Proofs.Command.Arguments
import DocHighlighter.Proofs.Command.Console
import DocHighlighter.Proofs.Engine.Full
import DocHighlighter.Proofs.Site.Discovery
import DocHighlighter.Proofs.Site.Paths

namespace DocHighlighter

/-! ## The engine of a command -/

theorem Value.isKnown_of_asStyle {v : Value} {style : String} (h : v.asStyle = .ok style) :
    Style.isKnown style = true := by
  unfold asStyle at h
  split at h
  · split_ifs at h with hknown
    obtain rfl := Except.ok.inj h
    exact hknown
  · cases h

theorem HighlightConfig.isKnown_of_read {fields : List (String × Value)} {config : HighlightConfig}
    (h : HighlightConfig.read fields = .ok config) : Style.isKnown config.style = true := by
  have hdefault : Style.isKnown "default" = true := by decide
  have hstyle : Style.isKnown (readField fields "style" "default" Value.asStyle).1 = true := by
    unfold readField
    split
    · exact hdefault
    · split
      · next hread => exact Value.isKnown_of_asStyle hread
      · exact hdefault
  unfold HighlightConfig.read at h
  dsimp only at h
  split at h
  · obtain rfl := Except.ok.inj h
    exact hstyle
  · cases h

theorem Settings.isKnown_of_ofValues {highlight app : Option Value} {settings : Settings}
    (h : Settings.ofValues highlight app = .ok settings) :
    Style.isKnown settings.highlight.style = true := by
  have hdefault : Style.isKnown ({} : HighlightConfig).style = true := by decide
  have hstyle : Style.isKnown (readGroup highlightGroup "HighlightConfig" {}
      HighlightConfig.read highlight).1.style = true := by
    unfold readGroup
    split
    · exact hdefault
    · split
      · next hread => exact HighlightConfig.isKnown_of_read hread
      · exact hdefault
    · exact hdefault
  unfold ofValues at h
  dsimp only at h
  split at h
  · obtain rfl := Except.ok.inj h
    exact hstyle
  · cases h

/-- **The style of settings that were loaded is known.** -/
theorem Settings.isKnown_of_load {environment : List (String × String)} {file : Option String}
    {settings : Settings} (h : Settings.load environment file = .ok settings) :
    Style.isKnown settings.highlight.style = true := by
  rw [load] at h
  cases hnew : groups (Variables.ofNamed (environment.map fun v => (v.1, some v.2)))
      .environment with
  | error fault =>
    rw [hnew] at h
    cases h
  | ok new =>
    rw [hnew] at h
    cases file with
    | none => exact isKnown_of_ofValues h
    | some text =>
      cases hold : groups (Variables.ofNamed (Dotenv.read environment text)) .file with
      | error fault =>
        simp only [hold] at h
        cases h
      | ok old =>
        simp only [hold] at h
        exact isKnown_of_ofValues h

namespace Command

/-- **Every command gets its engine,** and nothing is told about it. -/
theorem exists_fullEngine {style : String} (h : Style.isKnown style = true) :
    ∃ e, fullEngine style = (.ok e, []) := by
  obtain ⟨names, e, hregister, -⟩ := (Engine.isFull_builtins style).registerAll
  refine ⟨e, ?_⟩
  rw [fullEngine, Engine.create, if_pos h]
  dsimp only
  rw [hregister]

/-! ## Messages one after the other -/

/-- An outcome that tells messages about texts: nothing is changed, the status is 1 if all the texts
are readable, and then the messages are what is printed. -/
structure Outcome.Tells (o : Outcome) (files : Files) (message : String → String)
    (texts : List String) : Prop where
  files : o.files = files
  status : o.result = .ok 1 ↔ ∀ t ∈ texts, Console.isReadable t.toList = true
  fault : o.result ≠ .ok 1 → ∃ fault, o.result = .error (.markup fault)
  output : ∀ lines : List (List Char),
    texts.map (fun t => Console.shown (message t)) = lines.map .ok → o.output = lines.flatten

/-- The message about the text of a path that leads nowhere. -/
def nowhere (text : String) : String :=
  errorStart ++ text ++ " does not exist"

/-- The message about the quoted name of a language. -/
def unknown (name : String) : String :=
  errorStart ++ "unknown language " ++ name

theorem isError_nowhere (text : String) :
    Console.IsError (nowhere text) [] text.toList " does not exist".toList where
  message := by simp [nowhere, errorStart]
  quiet := by decide
  visible := by decide

theorem isError_unknown (name : String) :
    Console.IsError (unknown name) "unknown language ".toList name.toList [] where
  message := by simp [unknown, errorStart]
  quiet := by decide
  visible := by decide

/-- **Messages are told one after the other,** up to the first one with a text that is not
readable: by induction on the texts. -/
theorem tells_printAll {message : String → String} {before behind : List Char}
    (h : ∀ t, Console.IsError (message t) before t.toList behind) (files : Files)
    (texts : List String) :
    (printAll files (.ok 1) (texts.map message)).Tells files message texts := by
  induction texts with
  | nil =>
    refine ⟨rfl, by simp [printAll], fun hne => absurd rfl hne, fun lines hlines => ?_⟩
    obtain rfl := List.map_eq_nil_iff.1 hlines.symm
    rfl
  | cons t texts ih =>
    have hshows := (h t).exists_shown_iff
    rw [List.map_cons, printAll]
    cases hshown : Console.shown (message t) with
    | error fault =>
      have hnot : Console.isReadable t.toList ≠ true := by simpa [hshown] using hshows
      refine ⟨rfl, by simp [hnot], fun _ => ⟨fault, rfl⟩, fun lines hlines => ?_⟩
      cases lines with
      | nil => cases hlines
      | cons line lines => cases hshown.symm.trans (List.cons.inj hlines).1
    | ok line =>
      have hreadable : Console.isReadable t.toList = true := hshows.1 ⟨line, hshown⟩
      refine ⟨ih.files, ?_, ih.fault, fun lines hlines => ?_⟩
      · simpa [Outcome.after, hreadable] using ih.status
      · cases lines with
        | nil => cases hlines
        | cons line' lines =>
          obtain ⟨hline, hrest⟩ := List.cons.inj hlines
          obtain rfl := Except.ok.inj (hshown.symm.trans hline)
          show line ++ _ = _
          rw [ih.output lines hrest]
          rfl

variable {s : Surroundings} {settings : Settings} {args : List String} {command : Command}
  {message : String → String} {texts : List String} {o : Outcome} {files : Files} {e : Engine}

theorem Outcome.Tells.after (h : o.Tells files message texts) (log : Log) :
    (o.after [] log).Tells files message texts :=
  ⟨h.files, h.status, h.fault, h.output⟩

/-- What a command tells, its command line tells. -/
theorem run_tells
    (hload : Settings.load s.environment (s.settingsFile.map (·.2)) = .ok settings)
    (hread : Command.read args = .ok (.run command))
    (h : (work command settings.highlight s).Tells s.files message texts) :
    (run args s).Tells s.files message texts := by
  simp only [run, hread, hload]
  exact ⟨h.files, h.status, h.fault, h.output⟩

/-! ## The commands -/

theorem work_render {paths : List Path} (config : HighlightConfig) (dryRun noCopyButtons : Bool)
    (h : ∃ p ∈ paths, s.files.has p = false) :
    (work (.render paths dryRun noCopyButtons) config s).Tells s.files nowhere
      ((paths.filter (!s.files.has ·)).map Path.text) := by
  have hmissing : paths.filter (!s.files.has ·) ≠ [] := by
    obtain ⟨p, hp, hnone⟩ := h
    exact List.ne_nil_of_mem (List.mem_filter.2 ⟨hp, by simp [hnone]⟩)
  rw [work, runRender]
  split
  · next hnone => exact absurd hnone hmissing
  · have htells := tells_printAll isError_nowhere s.files
      ((paths.filter (!s.files.has ·)).map Path.text)
    rw [List.map_map] at htells
    exact htells

theorem work_highlight_unknown {config : HighlightConfig}
    (he : fullEngine config.style = (.ok e, [])) {language : String}
    (h : e.get? language = none) (file : Option Path) :
    (work (.highlight language file) config s).Tells s.files unknown [Text.quoted language] := by
  rw [work, runHighlight, withEngine, he]
  dsimp only
  rw [h]
  exact (tells_printAll isError_unknown s.files [Text.quoted language]).after []

theorem work_highlight_nowhere {config : HighlightConfig}
    (he : fullEngine config.style = (.ok e, [])) {language : String}
    (h : (e.get? language).isSome = true) {p : Path} (hp : s.files.isFile p = false) :
    (work (.highlight language (some p)) config s).Tells s.files nowhere [p.text] := by
  obtain ⟨g, hg⟩ := Option.isSome_iff_exists.1 h
  rw [work, runHighlight, withEngine, he]
  dsimp only
  rw [hg]
  dsimp only
  rw [hp, if_neg Bool.false_ne_true]
  exact (tells_printAll isError_nowhere s.files [p.text]).after []

/-! ## What is shown of them -/

theorem ne_empty_of_not_has {t : String} (h : files.has (Path.read t) = false) : t ≠ "" := by
  rintro rfl
  obtain ⟨e, he⟩ : ∃ e, files.at? files.here = some e :=
    Option.isSome_iff_exists.1 (Files.isSome_at?_iff.2
      ⟨files.here, by simp [Files.places], List.prefix_refl _⟩)
  have hfind : files.find (Path.read "") = .ok files.here :=
    congrArg Except.ok (List.reverse_reverse files.here)
  have hentry := Files.entry_eq_ok_iff.2 ⟨_, hfind, he⟩
  rw [Files.has, hentry] at h
  cases h

/-- The line that tells a path that leads nowhere has its text as it was given. -/
def PathTold (t : String) : Prop :=
  Console.shown (nowhere (Path.read t).text) = .ok ("Error: " ++ t ++ " does not exist\n").toList

/-- The line that tells a language that is not known has its quoted name. -/
def NameTold (name : String) : Prop :=
  Console.shown (unknown (Text.quoted name)) =
    .ok ("Error: unknown language " ++ Text.quoted name ++ "\n").toList

/-- **A path is told as it was given** exactly if it was written as it is read, and is plain. -/
theorem pathTold_iff {t : String} (h : t ≠ "") :
    PathTold t ↔ (Path.read t).text = t ∧ Console.IsPlain t.toList := by
  have hshown := (isError_nowhere (Path.read t).text).shown_iff (Path.text_read_sublist h)
  have hline : ("Error: " ++ t ++ " does not exist\n").toList =
      "Error: ".toList ++ ([] ++ (t.toList ++ " does not exist".toList)) ++ ['\n'] := by
    simp
  rw [PathTold, hline, hshown, String.toList_inj]
  exact and_congr_right fun hsame => by rw [hsame]

/-- The quoted name of a language is told as it is exactly if it is plain. -/
theorem nameTold_iff (name : String) :
    NameTold name ↔ Console.IsPlain (Text.quoted name).toList := by
  have hshown := (isError_unknown (Text.quoted name)).shown_iff (List.Sublist.refl _)
  have hline : ("Error: unknown language " ++ Text.quoted name ++ "\n").toList =
      "Error: ".toList ++ ("unknown language ".toList ++ ((Text.quoted name).toList ++ [])) ++
        ['\n'] := by
    simp
  rw [NameTold, hline, hshown]
  exact ⟨And.right, fun h => ⟨rfl, h⟩⟩

/-- A name whose characters are all quoted as they are stands between quotes. -/
theorem quoted_of_forall {name : String}
    (h : ∀ c ∈ name.toList, Text.quotedChar (Text.quoteFor name.toList) c = [c]) :
    (Text.quoted name).toList =
      [Text.quoteFor name.toList] ++ (name.toList ++ [Text.quoteFor name.toList]) := by
  have hchars : name.toList.flatMap (Text.quotedChar (Text.quoteFor name.toList)) = name.toList :=
    (List.flatMap_congr h).trans (List.flatMap_singleton' _)
  rw [Text.quoted, String.toList_ofList, hchars]
  rfl

/-- The quotes around a name make no difference. -/
theorem isPlain_quoted_iff {name : String}
    (h : ∀ c ∈ name.toList, Text.quotedChar (Text.quoteFor name.toList) c = [c]) :
    Console.IsPlain (Text.quoted name).toList ↔ Console.IsPlain name.toList := by
  have hquote : ∀ text, Console.IsQuiet [Text.quoteFor text] ∧
      Console.IsVisible [Text.quoteFor text] := by
    intro text
    unfold Text.quoteFor
    split_ifs <;> decide
  rw [quoted_of_forall h]
  obtain ⟨hquiet, hvisible⟩ := hquote name.toList
  exact Console.isPlain_append_iff ⟨hquiet, hquiet⟩ ⟨hvisible, hvisible⟩

/-! ## Command lines -/

end Command
end DocHighlighter
