import Mathlib.Data.List.Basic
import SourceDesk.CommandLine.Work

/-! What is heard of a job. Quiet is looked at wherever the work tells how far it has come, in
the midst of what it does, and the log has its filter; yet what is done does not depend on
either. At every stage the report at a verbosity is the one of the most talkative run, with
only the remarks that this verbosity lets through. -/
namespace SourceDesk.CommandLine

variable {σ : Type}

/-- The verbosity at which whatever is shown at some verbosity is shown. -/
def Verbosity.loudest : Verbosity := ⟨false, true⟩

/-- Whether a remark is shown. -/
def Verbosity.shows (v : Verbosity) : Remark → Bool
  | .progress _ => !v.quiet
  | .result _ => true
  | .event e => v.showsEvent e

/-- Whether a remark is only made on the way: how far the work has come, or a log record. -/
def Remark.isTalk : Remark → Bool
  | .progress _ | .event (.logged _) => true
  | _ => false

/-- The report with the remarks that are shown at a verbosity. -/
def Report.heard (r : Report σ) (v : Verbosity) : Report σ :=
  { r with remarks := r.remarks.filter v.shows }

section

variable (r : Report σ) (v : Verbosity)

/-- All that is no talk is heard. -/
theorem Report.heard_rest :
    (r.heard v).remarks.filter (fun m => !m.isTalk) = r.remarks.filter fun m => !m.isTalk := by
  rw [heard, List.filter_filter]
  refine List.filter_congr fun m _ => ?_
  cases m with
  | event e => cases e <;> simp [Remark.isTalk, Verbosity.shows, Verbosity.showsEvent]
  | _ => simp [Remark.isTalk, Verbosity.shows]

/-- Every start of a program is heard. -/
theorem Report.heard_launches : (r.heard v).launches = r.launches := by
  rw [launches, launches, heard, List.filterMap_filter]
  refine List.filterMap_congr fun m _ => ?_
  cases m with
  | event e =>
      cases e with
      | logged record => exact ite_self none
      | _ => rfl
  | _ => simp

/-- Where no progress is told, all is heard that is printed on the standard output. -/
theorem Report.heard_stdout (h : ∀ line, .progress line ∉ r.remarks) :
    (r.heard v).stdout = r.stdout := by
  obtain ⟨store, remarks, error⟩ := r
  simp only [stdout, heard] at h ⊢
  induction remarks with
  | nil => rfl
  | cons m ms ih =>
      have hrest := ih fun line hmem => h line (List.mem_cons_of_mem _ hmem)
      by_cases hshows : v.shows m = true
      · rw [List.filter_cons_of_pos hshows, List.map_cons, List.map_cons, String.join_cons,
          String.join_cons, hrest]
      · have hnothing : outputOf m = "" := by
          cases m with
          | progress line => exact absurd (by simp) (h line)
          | result line => exact absurd rfl hshows
          | event e => rfl
        rw [List.filter_cons_of_neg hshows, List.map_cons, String.join_cons, hnothing,
          String.empty_append, hrest]

end

/-! ### Remarks -/

theorem Verbosity.filter_eq (v : Verbosity) :
    ∃ level, v.filter = .upTo level ∧ level.rank ≤ Log.Level.debug.rank := by
  unfold filter
  split
  · exact ⟨_, rfl, by decide⟩
  · split
    · exact ⟨_, rfl, by decide⟩
    · exact ⟨_, rfl, by decide⟩

theorem Verbosity.loudest_showsEvent {v : Verbosity} {e : Event} (h : v.showsEvent e = true) :
    loudest.showsEvent e = true := by
  cases e with
  | logged record =>
      obtain ⟨level, hfilter, hlevel⟩ := v.filter_eq
      simp only [showsEvent, hfilter, Log.Filter.admits, decide_eq_true_eq] at h
      exact decide_eq_true (Nat.le_trans h hlevel)
  | _ => rfl

theorem filter_shows_seen (v : Verbosity) (events : List Event) :
    (seen .loudest events).filter v.shows = seen v events := by
  rw [seen, seen, List.filter_map, List.filter_filter]
  refine congrArg _ (List.filter_congr fun e _ => ?_)
  by_cases h : v.showsEvent e = true
  · simp [Verbosity.shows, h, Verbosity.loudest_showsEvent h]
  · simp [Verbosity.shows, h]

theorem filter_shows_lines (v : Verbosity) (lines : List String) :
    (if Verbosity.loudest.quiet then [] else lines.map .progress).filter v.shows =
      if v.quiet then [] else lines.map .progress := by
  have hshows : ∀ m ∈ lines.map Remark.progress, v.shows m = !v.quiet := by
    simp [Verbosity.shows]
  simp only [Verbosity.loudest, Bool.false_eq_true, if_false, List.filter_congr hshows]
  cases v.quiet <;> simp

theorem filter_shows_line (v : Verbosity) (line : String) :
    (if Verbosity.loudest.quiet then [] else [Remark.progress line]).filter v.shows =
      if v.quiet then [] else [.progress line] :=
  filter_shows_lines v [line]

theorem filter_shows_results (v : Verbosity) (lines : List String) :
    (lines.map .result).filter v.shows = lines.map .result := by
  simp [Verbosity.shows]

/-! ### Stages -/

theorem listLanguages_heard (v : Verbosity) (store : σ) (catalog : Listing) :
    (listLanguages .loudest store catalog).heard v = listLanguages v store catalog := by
  unfold listLanguages Report.heard
  cases Catalog.languages catalog with
  | error failure => simp only [filter_shows_seen]
  | ok languages => simp only [List.filter_append, filter_shows_seen, filter_shows_results]

section

variable [FurtherCharsets] (v : Verbosity) (storage : Storage σ) (store : σ)

theorem deliver_heard (s : Session) (dir : Option Path) :
    (deliver .loudest storage store s dir).heard v = deliver v storage store s dir := by
  unfold deliver Report.heard
  cases dir with
  | none => simp only [filter_shows_lines]
  | some dir =>
      simp only
      cases (s.exportTargets storage store dir).2.result with
      | error failure => simp only [filter_shows_seen]
      | ok paths => simp only [List.filter_append, filter_shows_seen, filter_shows_line]

theorem translateLoaded_heard (launch : Launcher) (settings : Settings) (command : Command)
    (s : Session) :
    (translateLoaded .loudest storage store launch settings command s).heard v =
      translateLoaded v storage store launch settings command s := by
  unfold translateLoaded
  rcases chooseLanguage settings (command.languages launch) with ⟨failure | language, events⟩
  · simp only [Report.heard, filter_shows_seen]
  · simp only
    -- a failure ends the work before anything is delivered
    cases (s.translate (command.translate launch) language
        (settings.namespaceHint.getD "")).outcome with
    | failure d =>
        simp only [Report.heard, List.filter_append, filter_shows_seen, filter_shows_line]
    | success targets =>
        simp only [← deliver_heard v, Report.heard, List.filter_append, filter_shows_seen,
          filter_shows_line]

theorem translateSources_heard (launch : Launcher) (settings : Settings) (command : Command)
    (sources : List Path) :
    (translateSources .loudest storage store launch settings command sources).heard v =
      translateSources v storage store launch settings command sources := by
  unfold translateSources
  simp only
  cases (Session.empty.load (storage.read store) sources).result with
  | error failure => simp only [Report.heard, filter_shows_seen]
  | ok names =>
      simp only [← translateLoaded_heard v, Report.heard, List.filter_append, filter_shows_seen,
        filter_shows_line]

/-- A job is the same at every verbosity, which decides what is heard of it. -/
theorem Job.run_heard (j : Job) (launch : Launcher) :
    (j.run .loudest storage store launch).heard v = j.run v storage store launch := by
  unfold Job.run
  cases j.settings storage store with
  | error failure => rfl
  | ok settings =>
      simp only
      cases settings.translator with
      | none => rfl
      | some program =>
          simp only
          split
          · exact listLanguages_heard v store _
          · exact translateSources_heard v storage store launch _ _ _

end

/-! ### Listing -/

theorem progress_not_mem_seen (v : Verbosity) (events : List Event) (line : String) :
    .progress line ∉ seen v events := by
  simp [seen]

theorem listLanguages_progress (v : Verbosity) (store : σ) (catalog : Listing) (line : String) :
    .progress line ∉ (listLanguages v store catalog).remarks := by
  unfold listLanguages
  cases Catalog.languages catalog with
  | error failure => exact progress_not_mem_seen v _ _
  | ok languages => simp [progress_not_mem_seen]

theorem Job.run_progress [FurtherCharsets] {j : Job} (h : j.listsLanguages = true) (v : Verbosity)
    (storage : Storage σ) (store : σ) (launch : Launcher) (line : String) :
    .progress line ∉ (j.run v storage store launch).remarks := by
  unfold Job.run
  cases j.settings storage store with
  | error failure => simp
  | ok settings =>
      simp only
      cases settings.translator with
      | none => simp
      | some program =>
          simp only [h, if_true]
          exact listLanguages_progress v store _ line

end SourceDesk.CommandLine
