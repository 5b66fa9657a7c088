import SourceDesk.CommandLine.Invocation
import SourceDesk.CommandLine.Report
import SourceDesk.Session.Loading
import SourceDesk.Session.Saving
import SourceDesk.Session.Attempt
import SourceDesk.Translator.External

/-!
Doing a job: settle the settings, then either list the languages or load the sources,
choose a language, translate, and write the targets if there is a directory for them.
Each stage runs only if all before it went well. How far the work has come is told at the
end of a stage, or not at all if quiet was asked for.
-/

namespace SourceDesk

/-- What is said about a diagnostic of the last attempt. -/
def Session.describe (s : Session) (d : Diagnostic) : String :=
  match s.locate? with
  | some (.ok l) =>
    let place := (s.coordinates? l).getD .origin
    l.document ++ ":" ++ toString place.line ++ ":" ++ toString place.column ++ ": " ++ d.message
  | some (.error stale) => d.message ++ " (无法定位: " ++ stale.message ++ ")"
  | none => "翻译失败: " ++ d.message

namespace CommandLine

variable {σ : Type}

/-- Whether an event is shown: log records have to pass the filter of the log. -/
def Verbosity.showsEvent (v : Verbosity) : Event → Bool
  | .logged record => v.filter.admits record.level
  | _ => true

/-- What was seen, as remarks. -/
def seen (v : Verbosity) (events : List Event) : List Remark :=
  (events.filter v.showsEvent).map .event

/-! ### The parts of a report -/

/-- What is said if nobody named a translator. -/
def noTranslator : String := "未指定翻译器：请使用 --translator 或在配置文件中设置 translator"

/-- What is said if not all sources could be read. -/
def loadingFailed : String := "加载源文件失败"

/-- What is said if not all targets could be written. -/
def exportFailed (dir : Path) : String := "写入输出目录失败: " ++ dir.quoted

/-- What is said of sources once they are loaded. -/
def loaded (names : List String) : String := "已加载 " ++ toString names.length ++ " 个源文件"

/-- What is said before a translator is asked for a language. -/
def translating (language : String) : String := "正在翻译为: " ++ language

/-- What is said of targets once they are written. -/
def exported (paths : List Path) (dir : Path) : String :=
  "翻译完成，输出 " ++ toString paths.length ++ " 个文件到: " ++ dir.quoted

/-- The lines of a list of languages. The first is the default. -/
def languageLines : List String → List String
  | [] => []
  | first :: rest => (first ++ " (默认)") :: rest

/-- How many targets a summary names. -/
def summarized : Nat := 3

/-- The line of a target in a summary, from a number on. -/
def targetLine (number : Nat) (d : Document) : String :=
  toString number ++ ". " ++ d.name ++ " (" ++ toString d.content.length ++ " 字符)"

/-- The lines about targets that are not written anywhere. -/
def summary (targets : DocumentSet) : List String :=
  ("翻译完成，生成 " ++ toString targets.size ++ " 个文件（未指定 --output，未写入磁盘）") ::
    (targets.documents.take summarized).mapIdx (fun i d => targetLine (i + 1) d) ++
    if summarized < targets.size then
      ["... 还有 " ++ toString (targets.size - summarized) ++ " 个文件"]
    else []

/-! ### The stages -/

variable [FurtherCharsets]

/-- The settings of a job: those of its file, under those of the command line. -/
def Job.settings (j : Job) (storage : Storage σ) (store : σ) : Except Failure Settings :=
  match j.config with
  | none => .ok (Settings.none.overriddenBy j.overrides)
  | some path => (Settings.load (storage.read store) path).map fun s => s.overriddenBy j.overrides

/-- Lists the languages of a catalog. -/
def listLanguages (v : Verbosity) (store : σ) (catalog : Listing) : Report σ :=
  match Catalog.languages catalog with
  | .error failure => ⟨store, seen v catalog.events, some ⟨failure.message, none⟩⟩
  | .ok languages => ⟨store, seen v catalog.events ++ (languageLines languages).map .result, none⟩

/-- The language of the settings, or else the default of a catalog, which is asked
for nothing if it is not needed. -/
def chooseLanguage (settings : Settings) (catalog : Listing) : Except Failure String × List Event :=
  match settings.language with
  | some language => (.ok language, [])
  | none => (Catalog.default catalog, catalog.events)

/-- Writes the targets of a session, or says that there is no place for them. -/
def deliver (v : Verbosity) (storage : Storage σ) (store : σ) (s : Session) :
    Option Path → Report σ
  | none => ⟨store, if v.quiet then [] else (summary s.targets).map .progress, none⟩
  | some dir =>
    let (store, step) := s.exportTargets storage store dir
    match step.result with
    | .error failure => ⟨store, seen v step.events, some ⟨exportFailed dir, some failure.message⟩⟩
    | .ok paths =>
      ⟨store, seen v step.events ++ if v.quiet then [] else [.progress (exported paths dir)], none⟩

/-- Translates the sources of a session and delivers the targets. -/
def translateLoaded (v : Verbosity) (storage : Storage σ) (store : σ) (launch : Launcher)
    (settings : Settings) (command : Command) (s : Session) : Report σ :=
  match chooseLanguage settings (command.languages launch) with
  | (.error failure, events) => ⟨store, seen v events, some ⟨failure.message, none⟩⟩
  | (.ok language, events) =>
    let before := seen v events ++ if v.quiet then [] else [.progress (translating language)]
    let attempt := s.translate (command.translate launch) language (settings.namespaceHint.getD "")
    match attempt.outcome with
    | .failure d =>
      ⟨store, before ++ seen v attempt.events, some ⟨attempt.session.describe d, none⟩⟩
    | .success _ =>
      let delivery := deliver v storage store attempt.session settings.outputDir
      { delivery with remarks := before ++ seen v attempt.events ++ delivery.remarks }

/-- Loads the sources of a job and translates them. -/
def translateSources (v : Verbosity) (storage : Storage σ) (store : σ) (launch : Launcher)
    (settings : Settings) (command : Command) (sources : List Path) : Report σ :=
  let loading := Session.empty.load (storage.read store) sources
  match loading.result with
  | .error failure => ⟨store, seen v loading.events, some ⟨loadingFailed, some failure.message⟩⟩
  | .ok names =>
    let before := seen v loading.events ++ if v.quiet then [] else [.progress (loaded names)]
    let rest := translateLoaded v storage store launch settings command loading.session
    { rest with remarks := before ++ rest.remarks }

/-- Does a job. -/
def Job.run (j : Job) (v : Verbosity) (storage : Storage σ) (store : σ) (launch : Launcher) :
    Report σ :=
  match j.settings storage store with
  | .error failure => ⟨store, [], some ⟨failure.message, none⟩⟩
  | .ok settings =>
    match settings.translator with
    | none => ⟨store, [], some ⟨noTranslator, none⟩⟩
    | some program =>
      let command : Command := ⟨program, settings.translatorArgs⟩
      if j.listsLanguages then listLanguages v store (command.languages launch)
      else translateSources v storage store launch settings command j.sources

end CommandLine

end SourceDesk
