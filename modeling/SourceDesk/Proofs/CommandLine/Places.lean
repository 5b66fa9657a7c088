import SourceDesk.Proofs.CommandLine.Gates
import SourceDesk.Proofs.Json.Write
import SourceDesk.Proofs.Session.Location
import SourceDesk.Proofs.Translator.External
import SourceDesk.Proofs.Translator.Request

/-! The places that a job reports. They are places in the texts that were sent: a translator
that points at one of them is reported with the line and the column there, and one that points
elsewhere with what it is missing. -/
namespace SourceDesk

open CommandLine Json

variable {σ : Type}

/-! ### Loaded sources -/

/-- What was loaded into an empty session is what was read. -/
theorem load_sourced (read : Path → Except String Bytes) (paths : List Path) :
    ∃ ds, Session.Sourced ds (Session.empty.load read paths).session := by
  -- nothing is written, whatever the charsets
  let _ := FurtherCharsets.none
  let files : Storage Unit := ⟨fun () p => read p, fun () _ _ => ((), .error "")⟩
  have hcourse := loadEach_course files.reader files paths () Session.empty
  exact ⟨_, hcourse.sourced .empty⟩

namespace Session

variable {past : List Deed} {s : Session} {message source : String} {offset : UInt64}

/-- The text of each name is sent once. -/
theorem Sourced.nodup_texts (h : Sourced past s) : (s.sources.toTexts.map NamedText.name).Nodup := by
  have hnames : s.sources.toTexts.map NamedText.name = s.sources.keys := by
    rw [← show s.sources.names = s.sources.keys from h.follows.named, DocumentSet.toTexts,
      DocumentSet.names, List.map_map]
    rfl
  rw [hnames]
  exact h.follows.wellFormed.nodup

/-- An error in a text that was sent is described by line and column there. -/
theorem Sourced.describe_found (h : Sourced past s) {content : String}
    (herror : s.lastError = some ⟨message, some ⟨source, offset⟩⟩)
    (hsent : ⟨source, content⟩ ∈ s.sources.toTexts) :
    let place := Coordinates.behind (content.toList.take (min offset.toNat content.length))
    s.describe ⟨message, some ⟨source, offset⟩⟩ =
      source ++ ":" ++ toString place.line ++ ":" ++ toString place.column ++ ": " ++ message := by
  obtain ⟨d, hd, hname⟩ := List.mem_map.mp hsent
  obtain ⟨rfl, rfl⟩ := NamedText.mk.inj hname
  have hlocate : s.locate? = some (.ok ⟨d.name, offset⟩) :=
    h.locate?_eq_ok_iff.mpr
      ⟨⟨d.name, offset⟩, by rw [herror]; rfl, List.mem_map_of_mem hd, rfl⟩
  simp only [describe, hlocate, h.coordinates?_of_mem hd, Option.getD_some]

/-- An error in a text that was not sent is described by what is missing. -/
theorem Sourced.describe_missing (h : Sourced past s)
    (herror : s.lastError = some ⟨message, some ⟨source, offset⟩⟩)
    (hunsent : ∀ content, ⟨source, content⟩ ∉ s.sources.toTexts) :
    s.describe ⟨message, some ⟨source, offset⟩⟩ =
      message ++ " (无法定位: " ++ (Failure.notFound source).message ++ ")" := by
  have hname : source ∉ s.sources.names := fun hmem => by
    obtain ⟨d, hd, rfl⟩ := List.mem_map.mp hmem
    exact hunsent d.content (List.mem_map.mpr ⟨d, hd, rfl⟩)
  have hlocate : s.locate? = some (.error (.notFound source)) :=
    h.locate?_eq_error_iff.mpr ⟨⟨source, offset⟩, by rw [herror]; rfl, hname, rfl⟩
  simp only [describe, hlocate]

end Session

namespace CommandLine

/-! ### The commission of a job -/

variable {settings : Settings} {first? : Option String} {s : Session} {c : Commission}

theorem mem_requests_iff :
    .translate c ∈ requests settings first? s ↔
      ∃ language, settings.language.or first? = some language ∧
        c = s.commission language (settings.namespaceHint.getD "") := by
  have hother : .translate c ∉ if settings.language.isNone then [Request.languages] else [] := by
    split <;> simp
  rw [requests, List.mem_append, or_iff_right hother, Option.mem_toList, Option.map_eq_some_iff]
  simp only [Request.translate.injEq, eq_comm]

section

variable [FurtherCharsets] (v : Verbosity)

/-- A diagnostic is described by the session that it was given to. -/
theorem translateLoaded_diagnosed (storage : Storage σ) (store : σ) {launch : Launcher}
    {command : Command} {language : String} {d : Diagnostic}
    (hlanguage : settings.language.or (command.languages launch).first? = some language)
    (hreply : (command.translate launch
      (s.commission language (settings.namespaceHint.getD ""))).reply = .refused (.diagnosed d)) :
    (translateLoaded v storage store launch settings command s).error =
      some ⟨(s.after (.translated language (settings.namespaceHint.getD "") (.failure d))).describe d,
        none⟩ := by
  unfold translateLoaded
  rcases hchoice : chooseLanguage settings (command.languages launch) with ⟨result, events⟩
  obtain ⟨-, ⟨chosen, rfl, hchosen⟩ | ⟨failure, rfl, hnone⟩⟩ :=
    chooseLanguage_cases command launch settings hchoice
  · obtain rfl : language = chosen := Option.some.inj (hlanguage.symm.trans hchosen)
    have houtcome : (s.translate (command.translate launch) language
        (settings.namespaceHint.getD "")).outcome = .failure d := congrArg Outcome.ofReply hreply
    simp only [houtcome]
    have hsession : (s.translate (command.translate launch) language
        (settings.namespaceHint.getD "")).session =
        s.after (.translated language (settings.namespaceHint.getD "") (.failure d)) := by
      rw [← houtcome]
      rfl
    rw [hsession]
  · rw [hlanguage] at hnone
    cases hnone

/-- The error that a job with loaded sources reports for a place, with all that was sent. -/
structure Located (c : Commission) (message source : String) (offset : UInt64)
    (error : Option FinalError) : Prop where
  /-- There is one text of each name at most. -/
  nodup : (c.sources.map NamedText.name).Nodup
  /-- In a text that was sent the place has a line and a column. -/
  found : ∀ content, ⟨source, content⟩ ∈ c.sources →
    let place := Coordinates.behind (content.toList.take (min offset.toNat content.length))
    error = some ⟨source ++ ":" ++ toString place.line ++ ":" ++ toString place.column ++ ": " ++
      message, none⟩
  /-- A text that was not sent is missing. -/
  missing : (∀ content, ⟨source, content⟩ ∉ c.sources) →
    error = some ⟨message ++ " (无法定位: " ++ (Failure.notFound source).message ++ ")", none⟩

theorem translateLoaded_located (storage : Storage σ) (store : σ) {launch : Launcher}
    {command : Command} {past : List Deed} {message source : String} {offset : UInt64}
    (hs : Session.Sourced past s)
    (hc : .translate c ∈ requests settings (command.languages launch).first? s)
    (hanswer : (launch command (Request.translate c).line).Answers
      (.error ⟨message, some ⟨source, offset⟩⟩)) :
    Located c message source offset
      (translateLoaded v storage store launch settings command s).error := by
  obtain ⟨language, hlanguage, rfl⟩ := mem_requests_iff.mp hc
  have hreply := Command.reply_eq_refused_iff.mpr (Command.unpack_of_diagnostic hanswer)
  rw [translateLoaded_diagnosed v storage store hlanguage hreply]
  -- the session that describes the error is the one after the attempt, with the same sources
  have ht := hs.after (.translated language (settings.namespaceHint.getD "")
    (.failure ⟨message, some ⟨source, offset⟩⟩))
  exact ⟨hs.nodup_texts, fun content hsent => by rw [ht.describe_found rfl hsent],
    fun hunsent => by rw [ht.describe_missing rfl hunsent]⟩

/-- A run in which the translator answers a commission with a diagnostic about a place ends with
an error about that place: line and column in the text of that name in the commission, of which
there is one at most, or, if there is none, the name that is missing. -/
theorem Job.run_located (j : Job) (storage : Storage σ) (store : σ) (launch : Launcher) {l : Launch}
    {c : Commission} {message source : String} {offset : UInt64}
    (hlaunch : l ∈ (j.run v storage store launch).launches)
    (hline : l.line = (Request.translate c).line)
    (hanswer : l.run.Answers (.error ⟨message, some ⟨source, offset⟩⟩)) :
    Located c message source offset (j.run v storage store launch).error := by
  rcases j.run_cases (r := j.run v storage store launch) rfl with
    ⟨-, hnone, -⟩ | ⟨file, command, -, ⟨-, hlisting⟩ | ⟨-, hlaunches, -, herror⟩⟩
  · rw [hnone] at hlaunch
    cases hlaunch
  · rw [hlisting, (listLanguages_eq v store command launch).1] at hlaunch
    obtain rfl := List.mem_singleton.mp hlaunch
    -- the one line of a listing is no commission
    cases Request.line_injective hline
  · rw [hlaunches, launches_translateLoaded] at hlaunch
    obtain ⟨q, hq, rfl⟩ := List.mem_map.mp hlaunch
    obtain rfl : q = .translate c := Request.line_injective hline
    obtain ⟨ds, hs⟩ := load_sourced (storage.read store) j.sources
    rw [herror]
    exact translateLoaded_located v storage store hs hq hanswer

end

attribute [local instance] FurtherCharsets.none in
theorem Job.run_located_second_line :
    let stdout := Write.object
      [("message", Write.text "bad"), ("status", Write.text "error"),
       ("position", Write.object [("source", Write.text "a"), ("offset", Write.nat 3)])]
    let launch : Launcher := fun _ _ => .ended (.code 0) stdout [] true
    let j : Job := ⟨[.ofText "dir/a"], none, ⟨some (.ofText "t"), [], some "go", none, none⟩, false⟩
    let files := Memory.ofFiles [(.ofText "dir/a", [65, 10, 66, 67])]
    let r := j.run ⟨false, false⟩ Memory.storage files launch
    let l := Command.start ⟨.ofText "t", []⟩ launch (.translate ⟨[⟨"a", "A\nBC"⟩], "", "go"⟩)
    l ∈ r.launches ∧ l.run.Answers (.error ⟨"bad", some ⟨"a", 3⟩⟩) ∧
      r.error = some ⟨"a:2:2: bad", none⟩ := by
  intro stdout launch j files r l
  have hlaunches : r.launches = [l] := by decide +kernel
  have hplace : (Tree.object [("source", .text "a"), ("offset", .number (.nat 3))]).SpelledBy
      (Write.object [("source", Write.text "a"), ("offset", Write.nat 3)]) :=
    spelledBy_object (.cons ⟨rfl, spelledText_text "a"⟩ (.cons ⟨rfl, by decide, rfl⟩ .nil))
  have hspelled : (Tree.object [("message", .text "bad"), ("status", .text "error"),
      ("position", .object [("source", .text "a"), ("offset", .number (.nat 3))])]).SpelledBy stdout :=
    spelledBy_object (.cons ⟨rfl, spelledText_text "bad"⟩ (.cons ⟨rfl, spelledText_text "error"⟩
      (.cons ⟨rfl, hplace⟩ .nil)))
  have hgives : Response.GivesDiagnostic (.object [("message", .text "bad"), ("status", .text "error"),
      ("position", .object [("source", .text "a"), ("offset", .number (.nat 3))])])
      ⟨"bad", some ⟨"a", 3⟩⟩ :=
    ⟨some _, ⟨_, rfl, .swap _ _ _⟩, _, rfl, _, rfl, .refl _⟩
  have hanswer : l.run.Answers (.error ⟨"bad", some ⟨"a", 3⟩⟩) :=
    ⟨_, ⟨stdout, [], true, rfl, [], stdout, [], by simp, blank_nil, hspelled, blank_nil⟩,
      hgives.answers⟩
  have hlaunch : l ∈ r.launches := by simp [hlaunches]
  refine ⟨hlaunch, hanswer, ?_⟩
  exact (Job.run_located ⟨false, false⟩ j _ _ launch hlaunch rfl hanswer).found "A\nBC" (by simp)

end CommandLine

end SourceDesk
