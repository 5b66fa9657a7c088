import SourceDesk.Proofs.CommandLine.Deliveries
import SourceDesk.Proofs.CommandLine.Requests
import SourceDesk.Proofs.Session.Loading
import SourceDesk.Storage.Memory

/-! The gates of a job. Before a translator is started there are settings, a program and all
sources; before targets are asked for there is a language; and before anything is written
there are targets and a directory for them. A job goes as far as its gates are open, and then
it does what stands behind them. -/
namespace SourceDesk

variable {σ : Type}

theorem Outcome.ofReply_eq_success_iff {reply : Reply} {texts : List NamedText} :
    ofReply reply = .success texts ↔ reply = .targets texts := by
  cases reply <;> simp [ofReply]

namespace CommandLine

/-! ### Gates -/

/-- The settings in the file of a job, if it has one. -/
def Job.fileSettings (j : Job) (read : Path → Except String Bytes) : Except Failure Settings :=
  match j.config with
  | none => .ok .none
  | some path => Settings.load read path

theorem Job.settings_eq (j : Job) (storage : Storage σ) (store : σ) :
    j.settings storage store =
      (j.fileSettings (storage.read store)).map fun file => file.overriddenBy j.overrides := by
  unfold Job.settings Job.fileSettings
  cases j.config <;> rfl

/-- What has to be there before a translator is started: settings that can be read, a program
that they or the command line name, and, unless only languages are listed, sources that can
all be read. -/
structure Job.Ready (j : Job) (read : Path → Except String Bytes) (file : Settings)
    (command : Command) : Prop where
  settings : j.fileSettings read = .ok file
  program : j.overrides.translator.or file.translator = some command.program
  args : command.args =
    if j.overrides.translatorArgs.isEmpty then file.translatorArgs else j.overrides.translatorArgs
  sources : j.listsLanguages = false → ∀ p ∈ j.sources, ∃ data, read p = .ok data

/-- A job has only one way to be ready. -/
theorem Job.Ready.unique {j : Job} {read : Path → Except String Bytes} {file file' : Settings}
    {command command' : Command} (h : j.Ready read file command)
    (h' : j.Ready read file' command') : file = file' ∧ command = command' := by
  obtain rfl : file = file' := Except.ok.inj (h.settings.symm.trans h'.settings)
  have hprogram : command.program = command'.program :=
    Option.some.inj (h.program.symm.trans h'.program)
  have hargs : command.args = command'.args := h.args.trans h'.args.symm
  cases command
  cases command'
  exact ⟨rfl, congrArg₂ Command.mk hprogram hargs⟩

/-- The language that the command line names, or else the file. -/
def Job.language? (j : Job) (file : Settings) : Option String :=
  j.overrides.language.or file.language

/-- What a translator is asked for in some language: all sources, with the hint of the command
line, or else of the file, or else none. -/
def Job.commission (j : Job) (read : Path → Except String Bytes) (file : Settings)
    (language : String) : Commission :=
  ⟨(Session.empty.load read j.sources).session.sources.toTexts,
    (j.overrides.namespaceHint.or file.namespaceHint).getD "", language⟩

variable (j : Job) (read : Path → Except String Bytes) (launch : Launcher) (file : Settings)
variable (command : Command)

/-- A job that is ready has texts to write, and a directory for them. -/
structure Job.Yields (texts : List NamedText) (dir : Path) : Prop where
  translates : j.listsLanguages = false
  reply : ∃ language, (j.language? file).or (command.languages launch).first? = some language ∧
    (command.translate launch (j.commission read file language)).reply = .targets texts
  output : j.overrides.outputDir.or file.outputDir = some dir

variable {j launch file command}

theorem listLanguages_eq (v : Verbosity) (store : σ) (command : Command) (launch : Launcher) :
    let r := listLanguages v store (command.languages launch)
    r.launches = [command.start launch .languages] ∧ r.store = store := by
  simp only [listLanguages]
  split
  · simp [Report.launches_eq, launches_languages]
  · simp [Report.launches_eq, launches_languages, Function.comp_def, Remark.launched?]

/-- No path is read. -/
def Unread (remarks : List Remark) : Prop :=
  ∀ path data reason, .event (.read path data) ∉ remarks ∧ .event (.unread path reason) ∉ remarks

theorem unread_listLanguages (v : Verbosity) (store : σ) :
    Unread (listLanguages v store (command.languages launch)).remarks := by
  intro path data reason
  unfold listLanguages
  split <;> simp [seen, Command.languages, Command.ask, Event.command]

/-! ### Stages -/

section

variable [FurtherCharsets] {v : Verbosity} {storage : Storage σ} {store : σ}

theorem translateSources_error {settings : Settings} {sources : List Path} {failure : Failure}
    (h : (Session.empty.load (storage.read store) sources).result = .error failure) :
    let r := translateSources v storage store launch settings command sources
    r.launches = [] ∧ r.store = store := by
  simp only [translateSources, h, Report.launches_eq, launches_seen, and_true]
  exact launches_loadEach _ _ _ _

theorem translateSources_ok {settings : Settings} {sources : List Path} {names : List String}
    (h : (Session.empty.load (storage.read store) sources).result = .ok names) :
    let r := translateSources v storage store launch settings command sources
    let rest := translateLoaded v storage store launch settings command
      (Session.empty.load (storage.read store) sources).session
    r.launches = rest.launches ∧ r.store = rest.store ∧ r.error = rest.error := by
  have hload : (Session.empty.load (storage.read store) sources).events.filterMap
      Event.launched? = [] := launches_loadEach _ _ _ _
  simp only [translateSources, h, Report.launches_eq, and_true, List.filterMap_append,
    launches_seen, launches_line, hload, List.nil_append]

/-- How far a job comes. -/
theorem Job.run_cases {r : Report σ} (h : j.run v storage store launch = r) :
    ((∀ file command, ¬j.Ready (storage.read store) file command) ∧ r.launches = [] ∧
      r.store = store) ∨
    ∃ file command, j.Ready (storage.read store) file command ∧
      ((j.listsLanguages = true ∧ r = listLanguages v store (command.languages launch)) ∨
        (j.listsLanguages = false ∧
          let rest := translateLoaded v storage store launch (file.overriddenBy j.overrides) command
            (Session.empty.load (storage.read store) j.sources).session
          r.launches = rest.launches ∧ r.store = rest.store ∧ r.error = rest.error)) := by
  unfold Job.run at h
  rw [Job.settings_eq] at h
  -- a stage that ends the job early has met what is not ready
  cases hfile : j.fileSettings (storage.read store) with
  | error failure =>
      simp only [hfile, Except.map] at h
      subst h
      refine .inl ⟨fun file command hready => ?_, rfl, rfl⟩
      rw [hready.settings] at hfile
      cases hfile
  | ok file =>
      simp only [hfile, Except.map] at h
      cases hprogram : (file.overriddenBy j.overrides).translator with
      | none =>
          simp only [hprogram] at h
          subst h
          refine .inl ⟨fun other command hready => ?_, rfl, rfl⟩
          obtain rfl : file = other := Except.ok.inj (hfile.symm.trans hready.settings)
          cases hprogram.symm.trans hready.program
      | some program =>
          simp only [hprogram] at h
          by_cases hlists : j.listsLanguages = true
          · rw [if_pos hlists] at h
            have hready : j.Ready (storage.read store) file
                ⟨program, (file.overriddenBy j.overrides).translatorArgs⟩ :=
              ⟨hfile, hprogram, rfl, by simp [hlists]⟩
            exact .inr ⟨file, _, hready, .inl ⟨hlists, h.symm⟩⟩
          · rw [if_neg hlists] at h
            rw [Bool.not_eq_true] at hlists
            cases hload : (Session.empty.load (storage.read store) j.sources).result with
            | error failure =>
                refine .inl ⟨fun other command hready => ?_, h ▸ translateSources_error hload⟩
                obtain ⟨names, hnames⟩ := Session.load_result_eq_ok_iff.mpr (hready.sources hlists)
                cases hload.symm.trans hnames
            | ok names =>
                have hready : j.Ready (storage.read store) file
                    ⟨program, (file.overriddenBy j.overrides).translatorArgs⟩ :=
                  ⟨hfile, hprogram, rfl, fun _ => Session.load_result_eq_ok_iff.mp ⟨names, hload⟩⟩
                exact .inr ⟨file, _, hready, .inr ⟨hlists, h ▸ translateSources_ok hload⟩⟩

/-- What a translation leaves of the store: all of it, unless there are targets and a directory
for them. -/
theorem translateLoaded_cases (settings : Settings) (s : Session) {r : Report σ}
    (h : translateLoaded v storage store launch settings command s = r) :
    let reply (language : String) : Reply :=
      (command.translate launch (s.commission language (settings.namespaceHint.getD ""))).reply
    (r.store = store ∧ ∀ language texts dir,
      settings.language.or (command.languages launch).first? = some language →
      reply language = .targets texts → settings.outputDir ≠ some dir) ∨
    ∃ language texts dir asking,
      settings.language.or (command.languages launch).first? = some language ∧
      reply language = .targets texts ∧ settings.outputDir = some dir ∧
      let rest := deliver v storage store (Session.install asking (.success texts)) (some dir)
      r.store = rest.store ∧ r.error = rest.error := by
  intro reply
  unfold translateLoaded at h
  rcases hchoice : chooseLanguage settings (command.languages launch) with ⟨result, events⟩
  obtain ⟨-, ⟨language, rfl, hlanguage⟩ | ⟨failure, rfl, hnone⟩⟩ :=
    chooseLanguage_cases command launch settings hchoice
  · simp only [hchoice] at h
    generalize hattempt : s.translate (command.translate launch) language
      (settings.namespaceHint.getD "") = attempt at h
    -- an attempt changes language and hint besides, which nothing that is written depends on
    have hsession : ∃ asking : Session, attempt.session = asking.install attempt.outcome :=
      ⟨{ s with
          language := some language
          namespaceHint := settings.namespaceHint.getD "" }, hattempt ▸ rfl⟩
    have houtcome : Outcome.ofReply (reply language) = attempt.outcome := hattempt ▸ rfl
    cases hoc : attempt.outcome with
    | failure d =>
        simp only [hoc] at h
        subst h
        refine .inl ⟨rfl, fun other texts dir hother hreply => ?_⟩
        obtain rfl : language = other := Option.some.inj (hlanguage.symm.trans hother)
        rw [Outcome.ofReply_eq_success_iff.mpr hreply, hoc] at houtcome
        cases houtcome
    | success texts =>
        simp only [hoc] at h
        rw [hoc] at hsession houtcome
        obtain ⟨asking, hasking⟩ := hsession
        have hreply := Outcome.ofReply_eq_success_iff.mp houtcome
        subst h
        cases hdir : settings.outputDir with
        | none => exact .inl ⟨rfl, by simp⟩
        | some dir =>
            refine .inr ⟨language, texts, dir, asking, hlanguage, hreply, rfl, ?_⟩
            rw [hasking]
            exact ⟨rfl, rfl⟩
  · simp only [hchoice] at h
    subst h
    exact .inl ⟨rfl, by simp [hnone]⟩

/-- What is written once the gates are open. -/
theorem Job.writes (hlists : j.listsLanguages = false) {read : Path → Except String Bytes}
    {r rest : Report (Recorded σ)} (hstore : r.store = rest.store) (herror : r.error = rest.error)
    (h : translateLoaded v storage.recorded ⟨store, []⟩ launch (file.overriddenBy j.overrides)
      command (Session.empty.load read j.sources).session = rest) :
    (∀ texts dir, j.Yields read launch file command texts dir →
      Delivered dir texts r.store.calls r.error) ∧
    ((∀ texts dir, ¬j.Yields read launch file command texts dir) → r.store = ⟨store, []⟩) := by
  rw [hstore, herror]
  rcases translateLoaded_cases _ _ h with ⟨hkept, hnothing⟩ |
    ⟨language, texts, dir, asking, hlanguage, hreply, hdir, hrest⟩
  · refine ⟨fun texts dir hyields => ?_, fun _ => hkept⟩
    obtain ⟨language, hlanguage, hreply⟩ := hyields.reply
    exact absurd hyields.output (hnothing language texts dir hlanguage hreply)
  · refine ⟨fun others place hyields => ?_, fun hnothing => ?_⟩
    · obtain ⟨other, hother, hreplied⟩ := hyields.reply
      obtain rfl : language = other := Option.some.inj (hlanguage.symm.trans hother)
      obtain rfl : texts = others := Reply.targets.inj (hreply.symm.trans hreplied)
      obtain rfl : dir = place := Option.some.inj (hdir.symm.trans hyields.output)
      rw [hrest.1, hrest.2]
      exact deliver_delivered v asking texts dir
    · exact absurd ⟨hlists, ⟨language, hlanguage, hreply⟩, hdir⟩ (hnothing texts dir)

theorem Job.unread (hlists : j.listsLanguages = true) :
    Unread (j.run v storage store launch).remarks := by
  unfold Job.run
  split
  · simp [Unread]
  split
  · simp [Unread]
  simp only [hlists, if_true]
  exact unread_listLanguages v store

end

attribute [local instance] FurtherCharsets.none in
/-- Nothing is started as long as a source is missing; then languages are asked for, and
without them no targets. -/
example :
    let j : Job := ⟨[.ofText "a", .ofText "b"], none,
      ⟨some (.ofText "t"), [], none, none, some (.ofText "out")⟩, false⟩
    let launch : Launcher := fun _ _ => .unstarted "denied"
    let launches (files : List (Path × Bytes)) : List Launch :=
      (j.run ⟨false, false⟩ Memory.storage (.ofFiles files) launch).launches
    launches [(.ofText "a", [])] = [] ∧
      launches [(.ofText "a", []), (.ofText "b", [])] =
        [Command.start ⟨.ofText "t", []⟩ launch .languages] := by
  decide +kernel

end CommandLine

end SourceDesk
