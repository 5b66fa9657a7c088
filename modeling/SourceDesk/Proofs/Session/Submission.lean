import SourceDesk.Proofs.Document.Follows
import SourceDesk.Proofs.Session.Attempt
import SourceDesk.Proofs.Session.Course
import SourceDesk.Storage.Memory

/-! What a translator is given. Of everything that was done, only the files that were
read and the texts that were committed to sources count: the commission is a function
of these. -/
namespace SourceDesk

namespace Deed

/-- Deeds that concern the text of a source. -/
def ofSources : Deed → Bool
  | .loaded _ _ | .committed .sources _ _ => true
  | _ => false

/-- The name that a load brings. -/
def loadedName? : Deed → Option String
  | .loaded p _ => some p.documentName
  | _ => none

/-- The text that a source gets, if it is there. -/
def sourceText? : Deed → Option NamedText
  | .loaded p data => some ⟨p.documentName, (DecodedText.decode data).content⟩
  | .committed .sources name content => some ⟨name, content⟩
  | _ => none

/-- The names of all files that were read, in order of the first time. -/
def sourceNames (ds : List Deed) : List String := (ds.filterMap loadedName?).eraseDups

variable {d : Deed}

theorem loadedName?_eq_none (h : d.ofSources = false) : d.loadedName? = none := by
  cases d <;> first | rfl | cases h

theorem sourceText?_eq_none (h : d.ofSources = false) : d.sourceText? = none := by
  cases d with
  | loaded p data => cases h
  | committed which name content =>
      cases which with
      | sources => cases h
      | targets => rfl
  | _ => rfl

/-- What deeds elsewhere have nothing to say about. -/
theorem filterMap_ofSources {α : Type} {f : Deed → Option α}
    (hf : ∀ d, d.ofSources = false → f d = none) (ds : List Deed) :
    (ds.filter ofSources).filterMap f = ds.filterMap f := by
  induction ds with
  | nil => rfl
  | cons d ds ih =>
      cases hd : d.ofSources <;> simp [hd, ih, List.filterMap_cons, hf]

theorem sourceNames_filter (ds : List Deed) :
    sourceNames (ds.filter ofSources) = sourceNames ds := by
  rw [sourceNames, filterMap_ofSources fun _ => loadedName?_eq_none, sourceNames]

end Deed

namespace Session

/-- The sources are what was read and committed. -/
structure Sourced (ds : List Deed) (s : Session) : Prop where
  follows : s.sources.Follows (ds.filterMap Deed.sourceText?)
  keys : s.sources.keys = Deed.sourceNames ds

variable {s : Session} {ds : List Deed}

theorem Sourced.empty : Sourced [] .empty := ⟨.empty _, rfl⟩

/-- A deed that brings no name changes texts at most. -/
theorem Sourced.keep {d : Deed} {t : Session} (h : Sourced ds s) (hname : d.loadedName? = none)
    (hkeys : t.sources.keys = s.sources.keys)
    (hf : t.sources.Follows (ds.filterMap Deed.sourceText? ++ d.sourceText?.toList)) :
    Sourced (ds ++ [d]) t := by
  refine ⟨?_, ?_⟩
  · rwa [filterMap_concat]
  · rw [hkeys, h.keys, Deed.sourceNames, Deed.sourceNames, filterMap_concat, hname]
    simp

/-- A deed that is done elsewhere. -/
theorem Sourced.elsewhere {d : Deed} {t : Session} (h : Sourced ds s)
    (hsources : t.sources = s.sources) (hd : d.ofSources = false) : Sourced (ds ++ [d]) t := by
  refine h.keep (Deed.loadedName?_eq_none hd) (by rw [hsources]) ?_
  rw [hsources, Deed.sourceText?_eq_none hd]
  simpa using h.follows

theorem Sourced.load (h : Sourced ds s) (p : Path) (data : Bytes) :
    Sourced (ds ++ [.loaded p data]) (s.after (.loaded p data)) := by
  refine ⟨?_, ?_⟩
  · rw [filterMap_concat]
    exact h.follows.insert (.loaded p (.decode data))
  · rw [Session.after, DocumentSet.keys_insert, h.keys, Deed.sourceNames, Deed.sourceNames,
      filterMap_concat]
    simp only [List.mem_eraseDups]
    exact DocumentSet.eraseDups_concat.symm

theorem Sourced.commit (h : Sourced ds s) (name content : String) :
    Sourced (ds ++ [.committed .sources name content])
      (s.after (.committed .sources name content)) :=
  h.keep rfl DocumentSet.keys_modify (h.follows.commit name content)

theorem Sourced.write (h : Sourced ds s) (slot : Nat) (p : Path) (data : Bytes) :
    Sourced (ds ++ [.written ⟨.sources, slot⟩ p data])
      (s.after (.written ⟨.sources, slot⟩ p data)) := by
  refine h.keep rfl DocumentSet.keys_modifySlot ?_
  rw [show (Deed.written ⟨.sources, slot⟩ p data).sourceText?.toList = [] from rfl, List.append_nil]
  exact h.follows.modifySlot (f := .stored p) (fun _ => rfl) slot

theorem Sourced.after (h : Sourced ds s) (d : Deed) : Sourced (ds ++ [d]) (s.after d) := by
  cases d with
  | loaded p data => exact h.load p data
  | committed which name content =>
      cases which with
      | sources => exact h.commit name content
      | targets => exact h.elsewhere rfl rfl
  | written seat p data =>
      obtain ⟨which, slot⟩ := seat
      cases which with
      | sources => exact h.write slot p data
      | targets => exact h.elsewhere rfl rfl
  | replaced targets => exact h.elsewhere rfl rfl
  | translated language namespaceHint o => exact h.elsewhere (sources_install _ o) rfl
  | translatedAgain catalog o => exact h.elsewhere (sources_install _ o) rfl

end Session

section

variable [FurtherCharsets] {σ : Type} (reader : Reader σ) (storage : Storage σ)

theorem run_sourced (store : σ) (ops : List Operation) :
    Session.Sourced (run reader storage store .empty ops).deeds
      (run reader storage store .empty ops).session :=
  run_induction reader storage .empty (fun _ _ d _ h => h.after d) store ops

/-- The texts of the sources are a function of what was read and committed. -/
theorem run_sources (store : σ) (ops : List Operation) {log : List Deed}
    (hlog : (run reader storage store .empty ops).deeds.filter Deed.ofSources = log) :
    (run reader storage store .empty ops).session.sources.toTexts.map some =
      (Deed.sourceNames log).map fun name =>
        (NamedText.latest? (log.filterMap Deed.sourceText?) name).map (.mk name) := by
  have h := run_sourced reader storage store ops
  rw [h.follows.toTexts_eq, h.keys, ← hlog, Deed.sourceNames_filter,
    Deed.filterMap_ofSources fun _ => Deed.sourceText?_eq_none]

/-- Every attempt submits one commission. Its sources are the names of the files that
were read, in order of the first time, each with the last text that was read or
committed for it; nothing else that was done has a part in them. The sources stay as
they are. -/
theorem run_submission (store : σ) (ops : List Operation) (op : Operation) {o : Outcome}
    (ho : (op.perform reader storage (run reader storage store .empty ops).store
      (run reader storage store .empty ops).session).2.result = .ok (.outcome o)) :
    let r := run reader storage store .empty ops
    let t := (op.perform reader storage r.store r.session).2
    let log := r.deeds.filter Deed.ofSources
    ∃ translator c, op.translator? = some translator ∧
      Submits t.events (op.consultation r.session) translator c ∧
      o = .ofReply (translator c).reply ∧
      c.sources.map some = (Deed.sourceNames log).map (fun name =>
        (NamedText.latest? (log.filterMap Deed.sourceText?) name).map (.mk name)) ∧
      (∀ (τ : Type) (reader' : Reader τ) (storage' : Storage τ) (store' : τ) ops',
        (run reader' storage' store' .empty ops').deeds.filter Deed.ofSources = log →
        (run reader' storage' store' .empty ops').session.sources.toTexts = c.sources) ∧
      t.session.sources = r.session.sources := by
  intro r t log
  obtain ⟨translator, language, namespaceHint, hop, hsession, hevents, rfl⟩ :=
    perform_attempt reader storage ho
  refine ⟨translator, r.session.commission language namespaceHint, hop, ?_, rfl, ?_, ?_, ?_⟩
  · rw [show t.events = _ from hevents]
    exact r.session.translate_submits translator language namespaceHint _
  · exact run_sources reader storage store ops rfl
  · -- both runs have the texts that the log tells
    intro τ reader' storage' store' ops' hlog
    have htexts := run_sources reader' storage' store' ops' hlog
    rw [← run_sources reader storage store ops rfl] at htexts
    exact List.map_injective_iff.mpr (fun _ _ => Option.some.inj) htexts
  · rw [show t.session = _ from hsession]
    exact Session.sources_install _ _

end

attribute [local instance] FurtherCharsets.none in
/-- A second attempt, after an edit, a file that was not there and a first attempt. -/
theorem run_submission_again :
    let files := Memory.ofFiles [(.ofText "a/x", [65]), (.ofText "y", [66])]
    let echo : Translator := fun c => ⟨.targets c.sources, []⟩
    let ops : List Operation := [.load [.ofText "a/x", .ofText "y", .ofText "z"],
      .commit .sources "x" "new", .translate echo "go" "", .commit .targets "y" "old",
      .load [.ofText "y"]]
    let op := Operation.translateAgain echo (.fixed [])
    let r := run Memory.storage.reader Memory.storage files .empty ops
    let t := (op.perform Memory.storage.reader Memory.storage r.store r.session).2
    ∃ c, Submits t.events (op.consultation r.session) echo c ∧
      c.sources = [⟨"x", "new"⟩, ⟨"y", "B"⟩] := by
  intro files echo ops op r t
  obtain ⟨translator, c, hop, hsubmits, -, hsources, -⟩ :=
    run_submission Memory.storage.reader Memory.storage files ops op
      (o := .success [⟨"x", "new"⟩, ⟨"y", "B"⟩]) (by decide +kernel)
  obtain rfl : echo = translator := Option.some.inj hop
  refine ⟨c, hsubmits, List.map_injective_iff.mpr (fun _ _ => Option.some.inj) ?_⟩
  rw [hsources]
  decide +kernel

end SourceDesk
