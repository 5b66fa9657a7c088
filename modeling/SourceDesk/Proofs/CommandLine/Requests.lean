import SourceDesk.CommandLine.Work
import SourceDesk.Proofs.Session.Course

/-! What a job asks its translator for. Programs are started for questions alone: loading,
installing and writing leave no trace of a start, so the starts of a stage are its questions
in order. -/
namespace SourceDesk

/-- The attempt to start a program for a request. -/
def Command.start (c : Command) (launch : Launcher) (q : Request) : Launch :=
  ⟨c, q.line, launch c q.line⟩

variable {σ : Type}

/-! ### Events without a start -/

theorem launches_loadingNotes (replaced : Bool) (d : Document) (size : Nat) :
    (Session.loadingNotes replaced d size).filterMap Event.launched? = [] := by
  cases replaced <;> rfl

theorem launches_loadEach (reader : Reader σ) (paths : List Path) (store : σ)
    (sources : DocumentSet) :
    (Session.loadEach reader store paths sources).events.filterMap Event.launched? = [] := by
  induction paths generalizing store sources with
  | nil => rfl
  | cons p ps ih =>
      rcases hread : reader store p with ⟨store', reason | data⟩
      · simp only [Session.loadEach, hread]
        exact ih store' sources
      · simp only [Session.loadEach, hread]
        rw [List.cons_append, List.filterMap_cons_none rfl, List.filterMap_append,
          launches_loadingNotes, List.nil_append]
        exact ih _ _

theorem launches_installationNotes (before : DocumentSet) (o : Outcome) :
    (Session.installationNotes before o).filterMap Event.launched? = [] := by
  cases o with
  | failure d => rfl
  | success texts =>
      unfold Session.installationNotes
      simp only
      split <;> rfl

section

variable [FurtherCharsets]

theorem launches_writeTo (d : Document) (storage : Storage σ) (store : σ) (seat : Seat) (p : Path) :
    (d.writeTo storage store seat p).events.filterMap Event.launched? = [] := by
  unfold Document.writeTo
  split
  · rfl
  · split <;> rfl

theorem launches_exportEach (storage : Storage σ) (dir : Path) (slot : Nat) (store : σ)
    (docs : List Document) :
    (Session.exportEach storage dir slot store docs).events.filterMap Event.launched? = [] := by
  induction docs generalizing slot store with
  | nil => rfl
  | cons d docs ih =>
      have hwrite := launches_writeTo d storage store ⟨.targets, slot⟩ (Session.exportPath dir d)
      simp only [Session.exportEach]
      split
      · exact hwrite
      · rw [List.filterMap_append, hwrite, List.nil_append]
        exact ih _ _

theorem launches_exportTargets (s : Session) (storage : Storage σ) (store : σ) (dir : Path) :
    (s.exportTargets storage store dir).2.events.filterMap Event.launched? = [] := by
  unfold Session.exportTargets
  cases s.targets.documents.find? fun d => !Session.isExportable d with
  | some bad => rfl
  | none => exact launches_exportEach storage dir 0 store _

end

/-! ### Questions -/

variable (c : Command) (launch : Launcher)

theorem launches_languages :
    (c.languages launch).events.filterMap Event.launched? = [c.start launch .languages] := rfl

theorem launches_translate (s : Session) (language namespaceHint : String) :
    (s.translate (c.translate launch) language namespaceHint).events.filterMap Event.launched? =
      [c.start launch (.translate (s.commission language namespaceHint))] := by
  have hanswer : (c.translate launch (s.commission language namespaceHint)).events =
      [.command .debug ("spawning translator " ++ c.program.display),
        .launched (c.start launch (.translate (s.commission language namespaceHint)))] := by
    simp only [Command.translate, Command.ask]
    split <;> rfl
  simp only [Session.translate, hanswer]
  rw [List.filterMap_append, launches_installationNotes]
  rfl

namespace CommandLine

/-! ### Reports -/

/-- The attempt to start a translator that a remark tells of. -/
def Remark.launched? : Remark → Option Launch
  | .event e => e.launched?
  | _ => none

theorem Report.launches_eq (r : Report σ) : r.launches = r.remarks.filterMap Remark.launched? := rfl

/-- No start of a program is left out. -/
@[simp] theorem launches_seen (v : Verbosity) (events : List Event) :
    (seen v events).filterMap Remark.launched? = events.filterMap Event.launched? := by
  rw [seen, List.filterMap_map, List.filterMap_filter]
  refine List.filterMap_congr fun e _ => ?_
  cases e with
  | logged record => simp [Remark.launched?, Event.launched?]
  | _ => rfl

theorem launches_lines (quiet : Bool) (lines : List String) :
    (if quiet then [] else lines.map Remark.progress).filterMap Remark.launched? = [] := by
  cases quiet <;> simp [Remark.launched?, List.filterMap_map, Function.comp_def]

@[simp] theorem launches_line (quiet : Bool) (line : String) :
    (if quiet then [] else [Remark.progress line]).filterMap Remark.launched? = [] :=
  launches_lines quiet [line]

/-- A catalog is asked only if no language is named, and then its first language counts. -/
theorem chooseLanguage_cases (settings : Settings) {events : List Event}
    {result : Except Failure String}
    (h : chooseLanguage settings (c.languages launch) = (result, events)) :
    events.filterMap Event.launched? =
        (if settings.language.isNone then [Request.languages] else []).map (c.start launch) ∧
      ((∃ language, result = .ok language ∧
          settings.language.or (c.languages launch).first? = some language) ∨
        ∃ failure, result = .error failure ∧
          settings.language.or (c.languages launch).first? = none) := by
  unfold chooseLanguage at h
  cases hlanguage : settings.language with
  | some language =>
      simp only [hlanguage, Prod.mk.injEq] at h
      obtain ⟨rfl, rfl⟩ := h
      exact ⟨rfl, .inl ⟨language, rfl, rfl⟩⟩
  | none =>
      simp only [hlanguage, Prod.mk.injEq] at h
      obtain ⟨hdefault, rfl⟩ := h
      refine ⟨launches_languages c launch, ?_⟩
      cases result with
      | ok language => exact .inl ⟨language, rfl, Catalog.default_eq_ok_iff.mp hdefault⟩
      | error failure =>
          refine .inr ⟨failure, rfl, Option.eq_none_iff_forall_ne_some.mpr fun language hfirst => ?_⟩
          rw [Option.none_or, ← Catalog.default_eq_ok_iff, hdefault] at hfirst
          cases hfirst

variable [FurtherCharsets] (v : Verbosity)

theorem launches_deliver (storage : Storage σ) (store : σ) (s : Session) (dir : Option Path) :
    (deliver v storage store s dir).remarks.filterMap Remark.launched? = [] := by
  cases dir with
  | none => exact launches_lines v.quiet (summary s.targets)
  | some dir =>
      have hexport := launches_exportTargets s storage store dir
      simp only [deliver]
      split
      · simpa using hexport
      · simpa using hexport

/-- The questions of a translation: for the languages if none is named, and for the targets
if there is a language. -/
def requests (settings : Settings) (first? : Option String) (s : Session) : List Request :=
  (if settings.language.isNone then [.languages] else []) ++
    ((settings.language.or first?).map fun language =>
      .translate (s.commission language (settings.namespaceHint.getD ""))).toList

theorem launches_translateLoaded (storage : Storage σ) (store : σ) (settings : Settings)
    (s : Session) :
    (translateLoaded v storage store launch settings c s).launches =
      (requests settings (c.languages launch).first? s).map (c.start launch) := by
  rw [Report.launches_eq, translateLoaded, requests]
  rcases hchoice : chooseLanguage settings (c.languages launch) with ⟨result, events⟩
  obtain ⟨hevents, ⟨language, rfl, hlanguage⟩ | ⟨failure, rfl, hnone⟩⟩ :=
    chooseLanguage_cases c launch settings hchoice
  · rw [hlanguage, List.map_append]
    simp only
    split
    · simp [hevents, launches_translate]
    · simp [hevents, launches_translate, launches_deliver]
  · simp only [hnone, launches_seen, hevents]
    simp

end CommandLine

end SourceDesk
