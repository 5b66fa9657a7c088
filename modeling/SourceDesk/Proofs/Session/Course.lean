import SourceDesk.Proofs.Document.Set
import SourceDesk.Session.History

/-! What one deed does to a session and to the store around it, and that a run is
nothing but its deeds: `run_course`. A property of all reachable sessions is shown by
`run_induction` for one deed at a time, with the deeds so far at hand. -/
namespace SourceDesk

-- no proof here depends on the tables of the charsets, which unification would go through
attribute [local irreducible] encodeText?

/-- The document as it is once it was written to a path. -/
def Document.stored (p : Path) (d : Document) : Document :=
  { d with path := some p, dirty := false }

/-- The first language of a catalog, if it has one. -/
def Listing.first? (l : Listing) : Option String := l.languages.toOption.bind List.head?

namespace Session

/-- The document at a seat. -/
def at? (s : Session) (seat : Seat) : Option Document :=
  (s.shelf seat.shelf).documents[seat.slot]?

/-- The session with other documents in the slots of a shelf. -/
def setDocuments (s : Session) (which : Shelf) (ds : List Document) : Session :=
  s.setShelf which { s.shelf which with documents := ds }

/-- Both sets are well-formed. -/
def WellFormed (s : Session) : Prop := ∀ which, (s.shelf which).WellFormed

/-- What a deed makes of a session. -/
def after (s : Session) : Deed → Session
  | .loaded p data => { s with sources := s.sources.insert (.loaded p (.decode data)) }
  | .committed which name content =>
    s.setShelf which ((s.shelf which).modify name fun d => d.commit content)
  | .written seat p _ =>
    s.setShelf seat.shelf ((s.shelf seat.shelf).modifySlot seat.slot (.stored p))
  | .replaced targets => { s with targets }
  | .translated language namespaceHint o =>
    { s with language := some language, namespaceHint }.install o
  | .translatedAgain catalog o => { s with language := s.language.or catalog.first? }.install o

end Session

section

variable {s : Session} {d : Deed}

/-! ### Shelves -/

@[simp] theorem Session.shelf_setShelf (s : Session) (which : Shelf) (set : DocumentSet) :
    (s.setShelf which set).shelf which = set := by
  cases which <;> rfl

theorem Session.shelf_setShelf_of_ne {s : Session} {which other : Shelf} {set : DocumentSet}
    (h : other ≠ which) : (s.setShelf which set).shelf other = s.shelf other := by
  cases which <;> cases other <;> first | rfl | exact absurd rfl h

@[simp] theorem Session.setShelf_setShelf (s : Session) (which : Shelf) (set set' : DocumentSet) :
    (s.setShelf which set).setShelf which set' = s.setShelf which set' := by
  cases which <;> rfl

@[simp] theorem Session.setShelf_self (s : Session) (which : Shelf) :
    s.setShelf which (s.shelf which) = s := by
  cases which <;> rfl

@[simp] theorem Session.documents_setDocuments (s : Session) (which : Shelf)
    (docs : List Document) :
    ((s.setDocuments which docs).shelf which).documents = docs := by
  simp [setDocuments]

@[simp] theorem Session.documents_sources_setDocuments (s : Session) (docs : List Document) :
    (s.setDocuments .sources docs).sources.documents = docs :=
  s.documents_setDocuments .sources docs

@[simp] theorem Session.documents_targets_setDocuments (s : Session) (docs : List Document) :
    (s.setDocuments .targets docs).targets.documents = docs :=
  s.documents_setDocuments .targets docs

@[simp] theorem Session.setDocuments_setDocuments (s : Session) (which : Shelf)
    (docs docs' : List Document) :
    (s.setDocuments which docs).setDocuments which docs' = s.setDocuments which docs' := by
  simp [setDocuments]

theorem Session.setDocuments_self (s : Session) (which : Shelf) :
    s.setDocuments which (s.shelf which).documents = s :=
  s.setShelf_self which

/-- An attempt has no part in the sources. -/
theorem Session.sources_install (s : Session) (o : Outcome) :
    (s.install o).sources = s.sources := by
  cases o <;> rfl

/-- The targets of an attempt are fresh. -/
theorem Session.generated_of_mem_install {s : Session} {o : Outcome} {d : Document}
    (h : d ∈ (s.install o).targets.documents) : ∃ t, d = .generated t := by
  cases o with
  | success texts =>
      obtain ⟨t, -, rfl⟩ := List.mem_map.mp (DocumentSet.mem_of_mem_ofList h)
      exact ⟨t, rfl⟩
  | failure e => cases h

theorem Session.wellFormed_install (o : Outcome) : ((s.install o).shelf .targets).WellFormed := by
  cases o with
  | success texts => exact DocumentSet.wellFormed_ofList _
  | failure d => exact DocumentSet.wellFormed_empty

/-- A session with one shelf changed. -/
theorem Session.WellFormed.setShelf (hs : s.WellFormed) {which : Shelf} {set : DocumentSet}
    (hset : set.WellFormed) : (s.setShelf which set).WellFormed := by
  intro other
  by_cases heq : other = which
  · subst heq
    rwa [shelf_setShelf]
  · rw [shelf_setShelf_of_ne heq]
    exact hs other

theorem Session.WellFormed.asking (hs : s.WellFormed) (language : Option String)
    (namespaceHint : String) : WellFormed { s with language, namespaceHint } := by
  intro which
  cases which with
  | sources => exact hs .sources
  | targets => exact hs .targets

theorem Session.WellFormed.install (hs : s.WellFormed) (o : Outcome) :
    (s.install o).WellFormed := by
  intro which
  cases which with
  | sources =>
      show (s.install o).sources.WellFormed
      rw [sources_install]
      exact hs .sources
  | targets => exact wellFormed_install o

theorem Session.wellFormed_empty : Session.empty.WellFormed := by
  intro which
  cases which <;> exact DocumentSet.wellFormed_empty

/-- Only a set that is put in place of the targets can be none. -/
theorem Session.WellFormed.after_of (hs : s.WellFormed)
    (hd : ∀ targets, d = .replaced targets → targets.WellFormed) : (s.after d).WellFormed := by
  cases d with
  | loaded p data =>
      show (s.setShelf .sources (s.sources.insert (.loaded p (.decode data)))).WellFormed
      exact hs.setShelf ((hs .sources).insert _)
  | committed which name content => exact hs.setShelf (hs which).modify
  | written seat p data => exact hs.setShelf (hs seat.shelf).modifySlot
  | replaced targets =>
      show (s.setShelf .targets targets).WellFormed
      exact hs.setShelf (hd targets rfl)
  | translated language namespaceHint o => exact (hs.asking _ _).install o
  | translatedAgain catalog o => exact (hs.asking _ _).install o

theorem modify_append_cons {α : Type} (f : α → α) (l m : List α) (a : α) :
    (l ++ a :: m).modify l.length f = l ++ f a :: m := by
  induction l with
  | nil => rfl
  | cons b l ih => simp [ih]

/-- What a written document leaves of a session in which it had its seat. -/
theorem after_written {which : Shelf} {before docs : List Document} {d : Document} (p : Path)
    (data : Bytes) (hdocs : (s.shelf which).documents = before ++ d :: docs) :
    s.after (.written ⟨which, before.length⟩ p data) =
      s.setDocuments which (before ++ d.stored p :: docs) := by
  simp [Session.after, Session.setDocuments, DocumentSet.modifySlot, hdocs, modify_append_cons]

theorem Session.commit_session (s : Session) (which : Shelf) (name content : String) :
    (s.commit which name content).session = s.after (.committed which name content) := by
  unfold Session.commit
  simp only [after]
  cases hget : (s.shelf which).get? name with
  | none =>
      rw [DocumentSet.modify_eq_self (by simp [hget]), setShelf_self]
  | some doc =>
      simp only
      by_cases hsame : doc.content = content
      · -- the session is left alone, and so it is by a change that changes nothing
        have hf : ∀ d, (s.shelf which).get? name = some d → d.commit content = d := by
          rintro d hd
          obtain rfl : doc = d := Option.some.inj (hget.symm.trans hd)
          simp [Document.commit, hsame]
        simp only [if_pos hsame]
        rw [DocumentSet.modify_eq_self hf, setShelf_self]
      · simp only [if_neg hsame]

/-- The language of another attempt is the last one, or else the first of the catalog. -/
theorem Catalog.default_eq_ok_iff {catalog : Listing} {language : String} :
    Catalog.default catalog = .ok language ↔ catalog.first? = some language := by
  unfold Catalog.default Catalog.languages Listing.first?
  rcases catalog.languages with _ | _ | ⟨first, rest⟩ <;> simp [Except.toOption]

/-! ### Deeds in events -/

@[simp] theorem Event.deed?_read (p : Path) (data : Bytes) :
    (Event.read p data).deed? = some (.loaded p data) := rfl

@[simp] theorem Event.deed?_unread (p : Path) (reason : String) :
    (Event.unread p reason).deed? = none := rfl

/-- The deeds that show in events are what was read and what was written. -/
theorem Event.deed?_cases {e : Event} (h : e.deed? = some d) :
    (∃ p data, d = .loaded p data) ∨ ∃ seat p data, d = .written seat p data := by
  cases e with
  | read p data => exact .inl ⟨p, data, (Option.some.inj h).symm⟩
  | written seat p data => exact .inr ⟨seat, p, data, (Option.some.inj h).symm⟩
  | _ => cases h

theorem deeds_loadingNotes (replaced : Bool) (d : Document) (size : Nat) :
    (Session.loadingNotes replaced d size).filterMap Event.deed? = [] := by
  cases replaced <;> rfl

end

/-- When a session admits a deed: what is written is the document as it is, a source
goes where it came from, and somebody names the language of an attempt. -/
def Deed.Possible [FurtherCharsets] (s : Session) : Deed → Prop
  | .loaded _ _ | .committed .. | .translated .. => True
  | .written seat p data =>
    ∃ d, s.at? seat = some d ∧ encodeText? d.content d.encoding = some data ∧
      (seat.shelf = .sources → d.path = some p)
  | .replaced targets => targets.WellFormed
  | .translatedAgain catalog _ => (s.language.or catalog.first?).isSome

section Course

variable [FurtherCharsets] {σ : Type} (reader : Reader σ) (storage : Storage σ)

/-- How the store moves with a deed. -/
def Deed.Moves (before after : σ) : Deed → Prop
  | .loaded p data => reader before p = (after, .ok data)
  | .written _ p data => storage.write before p data = (after, .ok ())
  | _ => after = before

/-- How the store moves when it refuses. -/
def Refuses (before after : σ) : Prop :=
  (∃ p reason, reader before p = (after, .error reason)) ∨
    ∃ p data reason, storage.write before p data = (after, .error reason)

/-- Deeds, and refusals between them, that lead from one state of things to another. -/
inductive Course : σ → Session → List Deed → σ → Session → Prop
  | done {store s} : Course store s [] store s
  | refused {store store' store'' s t ds} :
    Refuses reader storage store store' → Course store' s ds store'' t → Course store s ds store'' t
  | deed {store store' store'' s t d ds} :
    d.Possible s → d.Moves reader storage store store' →
    Course store' (s.after d) ds store'' t → Course store s (d :: ds) store'' t

end Course

section

variable [FurtherCharsets] {σ : Type} {reader : Reader σ} {storage : Storage σ}
variable {store store' store'' : σ} {s t u : Session} {d : Deed} {ds es : List Deed}

theorem Course.trans (h : Course reader storage store s ds store' t)
    (h' : Course reader storage store' t es store'' u) :
    Course reader storage store s (ds ++ es) store'' u := by
  induction h with
  | done => exact h'
  | refused hr _ ih => exact .refused hr (ih h')
  | deed hp hm _ ih => exact .deed hp hm (ih h')

/-- A deed that leaves the store alone. -/
theorem Course.single (hp : d.Possible s) (hm : d.Moves reader storage store store) :
    Course reader storage store s [d] store (s.after d) :=
  .deed hp hm .done

/-- What holds at the start, is kept by refusals and carried on by every deed holds in
the end. -/
theorem Course.induction {motive : List Deed → σ → Session → Prop}
    (refused : ∀ ds s store store', Refuses reader storage store store' → motive ds store s →
      motive ds store' s)
    (deed : ∀ ds s d store store', d.Possible s → d.Moves reader storage store store' →
      motive ds store s → motive (ds ++ [d]) store' (s.after d))
    (h : Course reader storage store s ds store' t) :
    ∀ past, motive past store s → motive (past ++ ds) store' t := by
  induction h with
  | done => intro past hi; simpa using hi
  | refused hr _ ih => exact fun past hi => ih past (refused _ _ _ _ hr hi)
  | @deed _ _ _ _ _ d ds hp hm _ ih =>
      intro past hi
      simpa using ih (past ++ [d]) (deed _ _ _ _ _ hp hm hi)

theorem Session.WellFormed.after (hs : s.WellFormed) (hp : d.Possible s) :
    (s.after d).WellFormed :=
  hs.after_of (by rintro targets rfl; exact hp)

theorem Course.wellFormed (h : Course reader storage store s ds store' t) (hs : s.WellFormed) :
    t.WellFormed := by
  induction h with
  | done => exact hs
  | refused _ _ ih => exact ih hs
  | deed hp _ _ ih => exact ih (hs.after hp)

end

section

variable {σ : Type} (reader : Reader σ) (storage : Storage σ)
variable {store store' store'' : σ} {s t : Session} {d : Deed} {ds : List Deed}

/-! ### Loading -/

/-- What is loaded when a reader is asked for one path after the other. -/
def readings : σ → List Path → List Deed
  | _, [] => []
  | store, p :: ps =>
    match reader store p with
    | (store, .error _) => readings store ps
    | (store, .ok data) => .loaded p data :: readings store ps

/-- The deeds of a load are what the reader gave, whatever the sources were. -/
theorem loadEach_deeds (paths : List Path) (store : σ) (sources : DocumentSet) :
    (Session.loadEach reader store paths sources).events.filterMap Event.deed? =
      readings reader store paths := by
  induction paths generalizing store sources with
  | nil => rfl
  | cons p ps ih =>
      rcases hread : reader store p with ⟨store', reason | data⟩
      · simp only [Session.loadEach, readings, hread]
        exact ih store' sources
      · simp only [Session.loadEach, readings, hread, List.cons_append, List.filterMap_cons,
          Event.deed?_read, List.filterMap_append, deeds_loadingNotes, List.nil_append, ih]

variable [FurtherCharsets]

theorem loadEach_course (paths : List Path) (store : σ) (s : Session) :
    Course reader storage store s
      (readings reader store paths)
      (Session.loadEach reader store paths s.sources).store
      { s with sources := (Session.loadEach reader store paths s.sources).sources } := by
  induction paths generalizing store s with
  | nil => exact .done
  | cons p ps ih =>
      rcases hread : reader store p with ⟨store', reason | data⟩
      · simp only [Session.loadEach, readings, hread]
        exact .refused (.inl ⟨p, reason, hread⟩) (ih store' s)
      · rcases hset : s.sources.exchange (.loaded p (.decode data)) with ⟨set, replaced⟩
        have hafter : s.after (.loaded p data) = { s with sources := set } := by
          simp [Session.after, DocumentSet.insert, hset]
        simp only [Session.loadEach, readings, hread, hset]
        have hrest := ih store' { s with sources := set }
        refine .deed (d := .loaded p data) trivial hread ?_
        rw [hafter]
        exact hrest

/-! ### Writing -/

/-- Writing a document either fails, and leaves at most a store that moved, or is a
deed and makes the document clean. -/
theorem writeTo_cases (d : Document) (store : σ) (seat : Seat) (p : Path) {w : Written σ}
    (h : d.writeTo storage store seat p = w) :
    (∃ failure, w.result = .error failure ∧ w.events.filterMap Event.deed? = [] ∧
      (w.store = store ∨ ∃ data reason, storage.write store p data = (w.store, .error reason))) ∨
    (∃ data, encodeText? d.content d.encoding = some data ∧
      w.result = .ok { d with dirty := false } ∧
      w.events.filterMap Event.deed? = [.written seat p data] ∧
      storage.write store p data = (w.store, .ok ())) := by
  unfold Document.writeTo at h
  cases henc : encodeText? d.content d.encoding with
  | none =>
      simp only [henc] at h
      subst h
      exact .inl ⟨_, rfl, rfl, .inl rfl⟩
  | some data =>
      rcases hw : storage.write store p data with ⟨store', reason | ⟨⟩⟩
      · simp only [henc, hw] at h
        subst h
        exact .inl ⟨_, rfl, rfl, .inr ⟨data, reason, hw⟩⟩
      · simp only [henc, hw] at h
        subst h
        exact .inr ⟨data, rfl, rfl, rfl, hw⟩

variable {reader storage} in
/-- A document that is not written. -/
theorem Course.fail {p : Path} {es : List Event} (hevents : es.filterMap Event.deed? = [])
    (hstore : store' = store ∨
      ∃ data reason, storage.write store p data = (store', .error reason)) :
    Course reader storage store s (es.filterMap Event.deed?) store' s := by
  rw [hevents]
  rcases hstore with rfl | ⟨data, reason, hwrite⟩
  · exact .done
  · exact .refused (.inr ⟨p, data, reason, hwrite⟩) .done

variable {reader storage} in
/-- A document that is written in its seat, and what is done after that. -/
theorem Course.write {which : Shelf} {before docs : List Document} {p : Path} {data : Bytes}
    {doc : Document} (hdocs : (s.shelf which).documents = before ++ doc :: docs)
    (henc : encodeText? doc.content doc.encoding = some data)
    (hpath : which = .sources → doc.path = some p)
    (hw : storage.write store p data = (store', .ok ()))
    (hrest : Course reader storage store'
      (s.setDocuments which (before ++ doc.stored p :: docs)) ds store'' t) :
    Course reader storage store s (.written ⟨which, before.length⟩ p data :: ds) store'' t := by
  rw [← after_written p data hdocs] at hrest
  exact .deed ⟨doc, by simp [Session.at?, hdocs], henc, hpath⟩ hw hrest

theorem saveEach_course (which : Shelf) (docs before : List Document) (store : σ) (s : Session)
    (hdocs : (s.shelf which).documents = before ++ docs)
    {saving : Session.Saving σ Path}
    (h : Session.saveEach storage which before.length store docs = saving) :
    Course reader storage store s (saving.events.filterMap Event.deed?) saving.store
      (s.setDocuments which (before ++ saving.documents)) := by
  induction docs generalizing before store s saving with
  | nil =>
      subst h
      simp only [Session.saveEach]
      rw [← hdocs, Session.setDocuments_self]
      exact .done
  | cons d docs ih =>
      -- a document that is passed over stays where it is
      have hskip := ih (before ++ [d]) store s (by simp [hdocs]) rfl
      simp only [List.length_append, List.length_singleton, List.append_assoc,
        List.singleton_append] at hskip
      simp only [Session.saveEach] at h
      split at h
      · subst h
        exact hskip
      · split at h
        · subst h
          exact hskip
        · rename_i p hp
          rcases writeTo_cases storage d store ⟨which, before.length⟩ p rfl with
            ⟨failure, hres, hevents, hstore⟩ | ⟨data, henc, hres, hevents, hw⟩
          · -- the first failure ends the save, and what is left stays dirty
            simp only [hres] at h
            subst h
            rw [← hdocs, Session.setDocuments_self]
            exact .fail hevents hstore
          · simp only [hres] at h
            subst h
            have hd : ({ d with dirty := false } : Document) = d.stored p := by
              simp [Document.stored, hp]
            have hrest := ih (before ++ [d.stored p])
              (d.writeTo storage store ⟨which, before.length⟩ p).store
              (s.setDocuments which (before ++ d.stored p :: docs)) (by simp) rfl
            simp only [List.length_append, List.length_singleton, List.append_assoc,
              List.singleton_append, Session.setDocuments_setDocuments] at hrest
            simp only [List.filterMap_append, hevents, hd, List.singleton_append]
            exact .write hdocs henc (fun _ => hp) hw hrest

theorem exportEach_course (dir : Path) (docs before : List Document) (store : σ) (s : Session)
    (hdocs : s.targets.documents = before ++ docs)
    {saving : Session.Saving σ Path}
    (h : Session.exportEach storage dir before.length store docs = saving) :
    Course reader storage store s (saving.events.filterMap Event.deed?) saving.store
      (s.setDocuments .targets (before ++ saving.documents)) := by
  induction docs generalizing before store s saving with
  | nil =>
      subst h
      simp only [Session.exportEach]
      rw [← hdocs]
      exact .done
  | cons d docs ih =>
      simp only [Session.exportEach] at h
      rcases writeTo_cases storage d store ⟨.targets, before.length⟩
          (Session.exportPath dir d) rfl with
        ⟨failure, hres, hevents, hstore⟩ | ⟨data, henc, hres, hevents, hw⟩
      · simp only [hres] at h
        subst h
        rw [← hdocs]
        exact .fail hevents hstore
      · simp only [hres] at h
        subst h
        have hrest := ih (before ++ [d.stored (Session.exportPath dir d)])
          (d.writeTo storage store ⟨.targets, before.length⟩ (Session.exportPath dir d)).store
          (s.setDocuments .targets (before ++ d.stored (Session.exportPath dir d) :: docs))
          (by simp [Session.setDocuments, Session.setShelf]) rfl
        simp only [List.length_append, List.length_singleton, List.append_assoc,
          List.singleton_append, Session.setDocuments_setDocuments] at hrest
        simp only [List.filterMap_append, hevents, List.singleton_append]
        exact .write hdocs henc (by simp) hw hrest

/-! ### Operations -/

/-- Saving a shelf is saving its documents, whether it went well or not. -/
theorem save_eq (s : Session) (store : σ) (which : Shelf) {saving : Session.Saving σ Path}
    (h : Session.saveEach storage which 0 store (s.shelf which).documents = saving) :
    (s.save storage store which).1 = saving.store ∧
      (s.save storage store which).2.session = s.setDocuments which saving.documents ∧
      (s.save storage store which).2.events.filterMap Event.deed? =
        saving.events.filterMap Event.deed? := by
  simp only [Session.save, h, true_and]
  cases saving.failure with
  | some failure => exact ⟨rfl, rfl⟩
  | none =>
      refine ⟨rfl, ?_⟩
      rw [List.filterMap_append]
      exact List.append_nil _

theorem save_course (s : Session) (store : σ) (which : Shelf) :
    Course reader storage store s ((s.save storage store which).2.events.filterMap Event.deed?)
      (s.save storage store which).1 (s.save storage store which).2.session := by
  obtain ⟨hstore, hsession, hevents⟩ := save_eq storage s store which rfl
  rw [hstore, hsession, hevents]
  exact saveEach_course reader storage which (s.shelf which).documents [] store s rfl rfl

theorem exportTargets_course (s : Session) (store : σ) (dir : Path) :
    Course reader storage store s
      ((s.exportTargets storage store dir).2.events.filterMap Event.deed?)
      (s.exportTargets storage store dir).1 (s.exportTargets storage store dir).2.session := by
  unfold Session.exportTargets
  cases s.targets.documents.find? fun d => !Session.isExportable d with
  | some bad => exact .done
  | none => exact exportEach_course reader storage dir s.targets.documents [] store s rfl rfl

theorem saveTargetAs_course (s : Session) (store : σ) (name : String) (p : Path) :
    Course reader storage store s
      ((s.saveTargetAs storage store name p).2.events.filterMap Event.deed?)
      (s.saveTargetAs storage store name p).1 (s.saveTargetAs storage store name p).2.session := by
  unfold Session.saveTargetAs
  cases hfind : s.targets.find? name with
  | none => exact .done
  | some found =>
      obtain ⟨slot, doc⟩ := found
      simp only [DocumentSet.find?, Option.bind_eq_some_iff, Option.map_eq_some_iff] at hfind
      obtain ⟨_, hslot, _, hdoc, ⟨⟩⟩ := hfind
      simp only
      rcases writeTo_cases storage doc store ⟨.targets, slot⟩ p rfl with
        ⟨failure, hres, hevents, hstore⟩ | ⟨data, henc, hres, hevents, hw⟩
      · simp only [hres]
        exact .fail hevents hstore
      · simp only [hres, hevents]
        -- the document found under the name is the one in the slot
        have hmod : s.targets.modify name (fun _ => doc.stored p) =
            s.targets.modifySlot slot (.stored p) := by
          rw [DocumentSet.modify_eq_of_slot hslot, DocumentSet.modifySlot]
          congr 1
          apply List.ext_getElem?
          intro i
          by_cases hi : slot = i
          · subst hi
            simp [hdoc]
          · simp [List.getElem?_modify_ne _ _ hi]
        have hdeed : Deed.Possible s (.written ⟨.targets, slot⟩ p data) :=
          ⟨doc, hdoc, henc, by simp⟩
        have hafter : s.after (.written ⟨.targets, slot⟩ p data) =
            { s with targets := s.targets.modify name fun _ => doc.stored p } := by
          rw [hmod]
          rfl
        refine .deed hdeed hw ?_
        rw [hafter]
        exact .done

theorem translateAgain_course (s : Session) (store : σ) (translator : Translator)
    (catalog : Listing) :
    Course reader storage store s
      (Turn.deeds ⟨.translateAgain translator catalog,
        ((s.translateAgain translator catalog).map .outcome).result,
        (s.translateAgain translator catalog).events⟩)
      store (s.translateAgain translator catalog).session := by
  have hcourse : ∀ language, s.language.or catalog.first? = some language →
      Course reader storage store s
        [.translatedAgain catalog (s.translate translator language s.namespaceHint).outcome] store
        (s.translate translator language s.namespaceHint).session := by
    intro language hlang
    have hafter : (s.translate translator language s.namespaceHint).session =
        s.after (.translatedAgain catalog
          (s.translate translator language s.namespaceHint).outcome) := by
      simp [Session.after, Session.translate, hlang]
    rw [hafter]
    exact .single (by simp [Deed.Possible, hlang]) rfl
  unfold Session.translateAgain
  cases hlang : s.language with
  | some language => exact hcourse language (by simp [hlang])
  | none =>
      cases hdef : Catalog.default catalog with
      | error failure => exact .done
      | ok language => exact hcourse language (by simp [hlang, Catalog.default_eq_ok_iff.mp hdef])

/-- An operation is its deeds. -/
theorem perform_course (op : Operation) (store : σ) (s : Session) :
    Course reader storage store s
      (Turn.deeds ⟨op, (op.perform reader storage store s).2.result,
        (op.perform reader storage store s).2.events⟩)
      (op.perform reader storage store s).1 (op.perform reader storage store s).2.session := by
  cases op with
  | load paths =>
      have hcourse := loadEach_course reader storage paths store s
      rw [← loadEach_deeds] at hcourse
      exact hcourse
  | commit which name content =>
      have hcourse : Course reader storage store s [.committed which name content] store
          (s.after (.committed which name content)) := .single trivial rfl
      rw [← s.commit_session] at hcourse
      exact hcourse
  | replaceTargets targets wellFormed => exact .single wellFormed rfl
  | save which => exact save_course reader storage s store which
  | saveTargetAs name p => exact saveTargetAs_course reader storage s store name p
  | exportTargets dir => exact exportTargets_course reader storage s store dir
  | resolve p => exact .done
  | locate =>
      unfold Operation.perform
      cases s.locate? <;> exact .done
  | translate translator language namespaceHint =>
      exact .single (d := .translated language namespaceHint _) trivial rfl
  | translateAgain translator catalog =>
      exact translateAgain_course reader storage s store translator catalog

/-! ### Runs -/

theorem run_cons (op : Operation) (ops : List Operation) (store : σ) (s : Session) {p : σ × Step _}
    (hp : op.perform reader storage store s = p) :
    run reader storage store s (op :: ops) =
      ⟨(run reader storage p.1 p.2.session ops).store,
        (run reader storage p.1 p.2.session ops).session,
        ⟨op, p.2.result, p.2.events⟩ :: (run reader storage p.1 p.2.session ops).turns⟩ := by
  subst hp
  rfl

theorem run_append (ops ops' : List Operation) (store : σ) (s : Session) {r : Run σ}
    (hr : run reader storage store s ops = r) :
    run reader storage store s (ops ++ ops') =
      ⟨(run reader storage r.store r.session ops').store,
        (run reader storage r.store r.session ops').session,
        r.turns ++ (run reader storage r.store r.session ops').turns⟩ := by
  induction ops generalizing store s r with
  | nil =>
      subst hr
      rfl
  | cons op ops ih =>
      subst hr
      rw [List.cons_append, run_cons _ _ _ _ _ _ rfl, ih _ _ rfl]
      rfl

theorem run_concat (ops : List Operation) (op : Operation) (store : σ) (s : Session) {r : Run σ}
    {p : σ × Step _} (hr : run reader storage store s ops = r)
    (hp : op.perform reader storage r.store r.session = p) :
    run reader storage store s (ops ++ [op]) =
      ⟨p.1, p.2.session, r.turns ++ [⟨op, p.2.result, p.2.events⟩]⟩ := by
  rw [run_append _ _ _ _ _ _ hr, run_cons _ _ _ _ _ _ hp]
  rfl

/-- A turn of a run is an operation, done where the turns before it lead. -/
theorem run_split {ops : List Operation} {s : Session} {before after : List Turn} {turn : Turn}
    (h : (run reader storage store s ops).turns = before ++ turn :: after) :
    ∃ ops₁ op ops₂ r p, ops = ops₁ ++ op :: ops₂ ∧ run reader storage store s ops₁ = r ∧
      r.turns = before ∧ op.perform reader storage r.store r.session = p ∧
      turn = ⟨op, p.2.result, p.2.events⟩ ∧
      (run reader storage p.1 p.2.session ops₂).turns = after := by
  induction ops generalizing store s before with
  | nil => simp [run] at h
  | cons op ops ih =>
      rw [run_cons _ _ _ _ _ _ rfl] at h
      cases before with
      | nil =>
          obtain ⟨hturn, hafter⟩ := List.cons.inj h
          exact ⟨[], op, ops, _, _, rfl, rfl, rfl, rfl, hturn.symm, hafter⟩
      | cons first before =>
          obtain ⟨hfirst, hrest⟩ := List.cons.inj h
          obtain ⟨ops₁, op', ops₂, r, p, rfl, hr, hbefore, hp, hturn, hafter⟩ := ih hrest
          refine ⟨op :: ops₁, op', ops₂, ⟨r.store, r.session, first :: r.turns⟩, p, rfl, ?_, ?_,
            hp, hturn, hafter⟩
          · rw [run_cons _ _ _ _ _ _ rfl, hr, ← hfirst]
          · rw [hbefore]

theorem run_course (ops : List Operation) (store : σ) (s : Session) :
    Course reader storage store s (run reader storage store s ops).deeds
      (run reader storage store s ops).store (run reader storage store s ops).session := by
  induction ops generalizing store s with
  | nil => exact .done
  | cons op ops ih => exact (perform_course reader storage op store s).trans (ih _ _)

/-- What holds of the empty session and is carried on by every deed holds after a run. -/
theorem run_induction {motive : List Deed → Session → Prop} (empty : motive [] .empty)
    (deed : ∀ ds s d, d.Possible s → motive ds s → motive (ds ++ [d]) (s.after d))
    (store : σ) (ops : List Operation) :
    motive (run reader storage store .empty ops).deeds
      (run reader storage store .empty ops).session :=
  (run_course reader storage ops store .empty).induction (motive := fun ds _ s => motive ds s)
    (fun _ _ _ _ _ hi => hi) (fun ds s d _ _ hp _ hi => deed ds s d hp hi) [] empty

theorem run_wellFormed (store : σ) (ops : List Operation) :
    (run reader storage store .empty ops).session.WellFormed :=
  (run_course reader storage ops store .empty).wellFormed Session.wellFormed_empty

end

end SourceDesk
