import SourceDesk.Proofs.Session.Export

/-! Saving a shelf. The documents with changes and a path are written in order, up to the
first that its charset cannot hold or that the storage refuses. What was written is clean
then and nothing else is changed, so that another save takes up where this one ended. -/
namespace SourceDesk

variable {σ : Type}

namespace Document

/-- Whether a save writes a document: it has changes and a path. -/
def isPending (d : Document) : Bool := d.dirty && d.path.isSome

/-- Where a document goes in a save, and as which bytes, if its charset has any. -/
def saveWrite? [FurtherCharsets] (d : Document) : Option (Path × Bytes) :=
  d.path.bind fun p => (encodeText? d.content d.encoding).map fun data => (p, data)

/-- A document after saving went well. -/
def saved (d : Document) : Document :=
  if d.path.isSome then { d with dirty := false } else d

variable {d : Document} {p : Path}

theorem isPending_iff : d.isPending = true ↔ d.dirty = true ∧ ∃ p, d.path = some p := by
  simp [isPending, Option.isSome_iff_exists]

theorem saved_of_clean (h : d.dirty = false) : d.saved = d := by
  unfold saved
  split
  · rw [← h]
  · rfl

theorem saved_of_not_pending (h : d.isPending = false) : d.saved = d := by
  rcases Bool.and_eq_false_iff.mp h with hclean | hpath
  · exact saved_of_clean hclean
  · simp [saved, hpath]

theorem saved_of_path (h : d.path = some p) : d.saved = { d with dirty := false } := by
  simp [saved, h]

theorem path_saved (d : Document) : d.saved.path = d.path := by
  unfold saved
  split <;> rfl

/-- What was saved is not saved again, and what was passed over is passed over again. -/
theorem isPending_saved (d : Document) : d.saved.isPending = false := by
  cases hpath : d.path <;> simp [isPending, saved, hpath]

theorem saveWrite?_eq_some_iff [FurtherCharsets] {w : Path × Bytes} : d.saveWrite? = some w ↔
    d.path = some w.1 ∧ encodeText? d.content d.encoding = some w.2 := by
  simp only [saveWrite?, Option.bind_eq_some_iff, Option.map_eq_some_iff]
  constructor
  · rintro ⟨p, hpath, data, henc, rfl⟩
    exact ⟨hpath, henc⟩
  · rintro ⟨hpath, henc⟩
    exact ⟨w.1, hpath, w.2, henc, rfl⟩

end Document

namespace Session

/-- The documents that a save of a shelf writes, in order. -/
def pending (s : Session) (which : Shelf) : List Document :=
  (s.shelf which).documents.filter Document.isPending

theorem filter_pending_saved (docs : List Document) :
    (docs.map Document.saved).filter Document.isPending = [] := by
  simp [Document.isPending_saved]

theorem map_saved_saved (docs : List Document) :
    (docs.map Document.saved).map Document.saved = docs.map Document.saved := by
  rw [List.map_map]
  exact List.map_congr_left fun d _ => Document.saved_of_not_pending d.isPending_saved

section

variable [FurtherCharsets]

/-- How saving ends when it comes to the documents that are left: there are none, the
first has no bytes, or the storage refuses it. -/
inductive SaveEnd (storage : Storage σ) (store : σ) :
    List Document → Option Failure → σ → Prop
  | done : SaveEnd storage store [] none store
  | unencodable {d ds p} : d.dirty = true → d.path = some p →
    encodeText? d.content d.encoding = none →
    SaveEnd storage store (d :: ds)
      (some (.storage p ("content of " ++ d.name ++ " is not representable in " ++ d.encoding)))
      store
  | refused {d ds p data store' reason} : d.dirty = true → d.path = some p →
    encodeText? d.content d.encoding = some data →
    storage.write store p data = (store', .error reason) →
    SaveEnd storage store (d :: ds) (some (.storage p reason)) store'

/-- What saving documents came to: of the first ones, those that were pending are written
and clean, and the others are as they were. -/
structure Saved (storage : Storage σ) (store : σ) (docs : List Document)
    (saving : Saving σ Path) (before after : List Document) (ws : List (Path × Bytes))
    (mid : σ) : Prop where
  docs_eq : docs = before ++ after
  writes_eq : (before.filter Document.isPending).map Document.saveWrite? = ws.map some
  writes : storage.Writes store ws mid
  ends : SaveEnd storage mid after saving.failure saving.store
  written_eq : saving.written = ws.map Prod.fst
  documents_eq : saving.documents = before.map Document.saved ++ after

variable (storage : Storage σ) (which : Shelf) {store : σ} {d : Document} {docs : List Document}

/-- A document that is not pending is passed over. -/
theorem saveEach_cons_of_not_pending (h : d.isPending = false) (docs : List Document)
    (slot : Nat) (store : σ) {rest : Saving σ Path}
    (hrest : saveEach storage which (slot + 1) store docs = rest) :
    ∃ events, saveEach storage which slot store (d :: docs) =
      ⟨rest.store, d :: rest.documents, rest.written, rest.failure, events⟩ := by
  subst hrest
  by_cases hclean : d.dirty = false
  · refine ⟨(saveEach storage which (slot + 1) store docs).events, ?_⟩
    simp [saveEach, hclean]
  · have hpath : d.path = none := by simpa [Document.isPending, hclean] using h
    refine ⟨.session .debug ("skipping " ++ d.name ++ " without a path") ::
      (saveEach storage which (slot + 1) store docs).events, ?_⟩
    simp [saveEach, hclean, hpath]

theorem saveEach_saved (docs : List Document) (slot : Nat) (store : σ) {saving : Saving σ Path}
    (h : saveEach storage which slot store docs = saving) :
    ∃ before after ws mid, Saved storage store docs saving before after ws mid := by
  -- on the documents that are left: slot and store move on with each that is written
  induction docs generalizing slot store saving with
  | nil =>
      subst h
      exact ⟨[], [], [], store, rfl, rfl, .nil, .done, rfl, rfl⟩
  | cons d docs ih =>
      cases hpending : d.isPending with
      | false =>
          obtain ⟨before, after, ws, mid, hrest⟩ := ih (slot + 1) store rfl
          obtain ⟨events, hskip⟩ :=
            saveEach_cons_of_not_pending storage which hpending docs slot store rfl
          rw [hskip] at h
          subst h
          refine ⟨d :: before, after, ws, mid, ?_, ?_, hrest.writes, hrest.ends,
            hrest.written_eq, ?_⟩
          · rw [hrest.docs_eq]
            rfl
          · rw [List.filter_cons_of_neg (by simp [hpending]), hrest.writes_eq]
          · simp [hrest.documents_eq, Document.saved_of_not_pending hpending]
      | true =>
          obtain ⟨hdirty, p, hpath⟩ := Document.isPending_iff.mp hpending
          simp only [saveEach, hdirty, Bool.not_true, Bool.false_eq_true, if_false, hpath,
            Document.writeTo] at h
          cases henc : encodeText? d.content d.encoding with
          | none =>
              simp only [henc] at h
              subst h
              exact ⟨[], d :: docs, [], store, rfl, rfl, .nil, .unencodable hdirty hpath henc,
                rfl, rfl⟩
          | some data =>
              rcases hw : storage.write store p data with ⟨store', reason | ⟨⟩⟩
              · simp only [henc, hw] at h
                subst h
                exact ⟨[], d :: docs, [], store, rfl, rfl, .nil, .refused hdirty hpath henc hw,
                  rfl, rfl⟩
              · simp only [henc, hw] at h
                obtain ⟨before, after, ws, mid, hrest⟩ := ih (slot + 1) store' rfl
                subst h
                refine ⟨d :: before, after, (p, data) :: ws, mid, ?_, ?_, .cons hw hrest.writes,
                  hrest.ends, ?_, ?_⟩
                · rw [hrest.docs_eq]
                  rfl
                · have hwrite : d.saveWrite? = some (p, data) :=
                    Document.saveWrite?_eq_some_iff.mpr ⟨hpath, henc⟩
                  rw [List.filter_cons_of_pos hpending, List.map_cons, hwrite, hrest.writes_eq]
                  rfl
                · simp [hrest.written_eq]
                · simp [hrest.documents_eq, Document.saved_of_path hpath, hpath]

variable {storage which} {saving : Saving σ Path} {before after : List Document}
variable {ws : List (Path × Bytes)} {mid : σ}

/-- Without a failure all documents are saved. -/
theorem Saved.complete (h : Saved storage store docs saving before after ws mid)
    (hfailure : saving.failure = none) : before = docs ∧ after = [] ∧ mid = saving.store := by
  have hdocs := h.docs_eq
  have hends := h.ends
  rw [hfailure] at hends
  generalize saving.store = last at hends ⊢
  cases hends
  exact ⟨by simp [hdocs], rfl, rfl⟩

/-- There are as many writes as documents that were pending. -/
theorem Saved.length_eq (h : Saved storage store docs saving before after ws mid) :
    ws.length = (before.filter Document.isPending).length := by
  simpa using (congrArg List.length h.writes_eq).symm

/-- Every write is one of a pending document. -/
theorem Saved.exists_write (h : Saved storage store docs saving before after ws mid)
    (hd : d ∈ before) (hpending : d.isPending = true) : ∃ w ∈ ws, d.saveWrite? = some w := by
  have hmem : d.saveWrite? ∈ ws.map some := by
    rw [← h.writes_eq]
    exact List.mem_map_of_mem (List.mem_filter.mpr ⟨hd, hpending⟩)
  obtain ⟨w, hw, heq⟩ := List.mem_map.mp hmem
  exact ⟨w, hw, heq.symm⟩

variable (storage which) in
/-- A save of a shelf, whether it went well or not. -/
theorem save_saved (s : Session) (store : σ) {t : σ × Step Nat}
    (h : s.save storage store which = t) :
    ∃ saving before after ws mid,
      Saved storage store (s.shelf which).documents saving before after ws mid ∧
      t.1 = saving.store ∧ t.2.session = s.setDocuments which saving.documents ∧
      t.2.result = match saving.failure with
        | some failure => .error failure
        | none => .ok ws.length := by
  obtain ⟨before, after, ws, mid, hsaved⟩ :=
    saveEach_saved storage which (s.shelf which).documents 0 store rfl
  refine ⟨_, before, after, ws, mid, hsaved, ?_⟩
  obtain ⟨hstore, hsession, -⟩ := save_eq storage s store which rfl
  rw [h] at hstore hsession
  refine ⟨hstore, hsession, ?_⟩
  subst h
  have hlength := congrArg List.length hsaved.written_eq
  rw [List.length_map] at hlength
  simp only [Session.save, ← hlength]
  cases (saveEach storage which 0 store (s.shelf which).documents).failure <;> rfl

/-- A save that answers a number: that many documents were pending, and none is left. -/
theorem save_ok {s : Session} {count : Nat}
    (h : (s.save storage store which).2.result = .ok count) :
    count = (s.pending which).length ∧ (s.save storage store which).2.session =
      s.setDocuments which ((s.shelf which).documents.map .saved) := by
  obtain ⟨saving, before, after, ws, mid, hsaved, -, hsession, hresult⟩ :=
    save_saved storage which s store rfl
  cases hfailure : saving.failure with
  | some failure => simp [hresult, hfailure] at h
  | none =>
      obtain ⟨rfl, rfl, -⟩ := hsaved.complete hfailure
      have hcount : Except.ok (ε := Failure) ws.length = .ok count := by
        simpa [hfailure, hresult] using h
      refine ⟨?_, ?_⟩
      · rw [← Except.ok.inj hcount, hsaved.length_eq]
        rfl
      · rw [hsession, hsaved.documents_eq, List.append_nil]

/-! ### Records -/

variable (storage)

theorem saveEach_recorded (which : Shelf) (docs : List Document) (slot : Nat) (r : Recorded σ) :
    (saveEach storage.recorded which slot r docs).forget =
      saveEach storage which slot r.store docs := by
  induction docs generalizing slot r with
  | nil => rfl
  | cons d docs ih =>
      simp only [saveEach]
      split
      · simp only [← ih (slot + 1) r]
        rfl
      · cases d.path with
        | none =>
            simp only [← ih (slot + 1) r]
            rfl
        | some p =>
            simp only [Document.writeTo, Storage.recorded]
            cases encodeText? d.content d.encoding with
            | none => rfl
            | some data =>
                rcases hw : storage.write r.store p data with ⟨store', reason | ⟨⟩⟩
                · simp [hw, Saving.forget]
                · have hrest := ih (slot + 1) ⟨store', r.calls ++ [⟨p, data, none⟩]⟩
                  simp only [hw, ← hrest]
                  rfl

/-- A record changes nothing of a save. -/
theorem save_recorded (s : Session) (which : Shelf) (r : Recorded σ) :
    ((s.save storage.recorded r which).1.store, (s.save storage.recorded r which).2) =
      s.save storage r.store which := by
  simp only [Session.save, ← saveEach_recorded]
  rfl

variable {storage} in
/-- The calls of a save: the pending documents in order, all of them or the first ones. -/
theorem Saved.calls_prefix {docs before after : List Document} {saving : Saving (Recorded σ) Path}
    {ws : List (Path × Bytes)} {mid : Recorded σ}
    (h : Saved storage.recorded ⟨store, []⟩ docs saving before after ws mid) :
    ∃ tried, tried <+: docs.filter Document.isPending ∧
      (saving.store.calls.map fun c => some (c.path, c.data)) = tried.map Document.saveWrite? ∧
      (saving.failure = none → tried = docs.filter Document.isPending) := by
  have hcalls : mid.calls = ws.map .done := h.writes.calls
  have hdone : ((ws.map WriteCall.done).map fun c => some (c.path, c.data)) =
      (before.filter Document.isPending).map Document.saveWrite? := by
    rw [h.writes_eq, List.map_map]
    rfl
  have hends := h.ends
  rw [h.docs_eq, List.filter_append]
  generalize saving.failure = failure at hends
  generalize saving.store = last at hends
  cases hends with
  | done => exact ⟨_, List.prefix_append _ _, by rw [hcalls, hdone], fun _ => by simp⟩
  | unencodable => exact ⟨_, List.prefix_append _ _, by rw [hcalls, hdone], by simp⟩
  | @refused d ds p data _ reason hdirty hpath henc hw =>
      refine ⟨before.filter Document.isPending ++ [d], ?_, ?_, by simp⟩
      · rw [List.filter_cons_of_pos (Document.isPending_iff.mpr ⟨hdirty, p, hpath⟩)]
        exact (List.prefix_append_right_inj _).mpr (List.prefix_append [d] _)
      · have hwrite : d.saveWrite? = some (p, data) :=
          Document.saveWrite?_eq_some_iff.mpr ⟨hpath, henc⟩
        rw [(Storage.write_recorded_error hw).2, hcalls, List.map_append, hdone, List.map_append,
          List.map_singleton, List.map_singleton, hwrite]

/-- Whatever the storage answers, a save asks it to write pending documents only, in order, each
to its path, and when it goes well it has asked for all of them. -/
theorem save_calls (s : Session) (which : Shelf) (store : σ) :
    let t := s.save storage.recorded ⟨store, []⟩ which
    ∃ tried, tried <+: s.pending which ∧
      (t.1.calls.map fun c => some (c.path, c.data)) = tried.map Document.saveWrite? ∧
      ∀ count, t.2.result = .ok count → tried = s.pending which := by
  obtain ⟨saving, before, after, ws, mid, hsaved, hstore, -, hresult⟩ :=
    save_saved storage.recorded which s ⟨store, []⟩ rfl
  obtain ⟨tried, htried, hcalls, hall⟩ := hsaved.calls_prefix
  refine ⟨tried, htried, by rw [hstore, hcalls], fun count hcount => hall ?_⟩
  cases hfailure : saving.failure with
  | none => rfl
  | some failure => simp [hresult, hfailure] at hcount

end

end Session

/-! ### Storage that judges by the path -/

/-- Whether a storage takes a write or refuses it is a matter of the path alone. -/
def Storage.Judges (storage : Storage σ) (verdict : Path → Except String Unit) : Prop :=
  ∀ store p data, (storage.write store p data).2 = verdict p

/-- Storage that keeps all that it takes, in order. -/
def Storage.judging (verdict : Path → Except String Unit) : Storage (List (Path × Bytes)) where
  read store p := (store.reverse.lookup p).elim (.error "no such file") .ok
  write store p data := (if (verdict p).isOk then store ++ [(p, data)] else store, verdict p)

section

variable {storage : Storage σ} {verdict : Path → Except String Unit}

theorem Storage.judges_judging (verdict : Path → Except String Unit) :
    (judging verdict).Judges verdict :=
  fun _ _ _ => rfl

theorem Storage.Judges.recorded (h : storage.Judges verdict) : storage.recorded.Judges verdict := by
  intro r p data
  rw [← h r.store p data]
  simp only [Storage.recorded]
  rcases storage.write r.store p data with ⟨store, reason | ⟨⟩⟩ <;> rfl

theorem Storage.Judges.ok_of_writes (h : storage.Judges verdict) {store store' : σ}
    {ws : List (Path × Bytes)} (hw : storage.Writes store ws store') :
    ∀ w ∈ ws, verdict w.1 = .ok () := by
  induction hw with
  | nil => simp
  | @cons store _ _ p data _ hwrite _ ih =>
      refine List.forall_mem_cons.mpr ⟨?_, ih⟩
      rw [← h store p data, hwrite]

end

theorem Recorded.written_of_calls {r : Recorded σ} {ws : List (Path × Bytes)}
    (hcalls : r.calls = ws.map .done) : r.written = ws := by
  simp [written, hcalls, List.filter_map, Function.comp_def, WriteCall.done]

section

variable [FurtherCharsets]

namespace Document

/-- A document that has bytes and a path, and no refusal to fear there. -/
def Storable (verdict : Path → Except String Unit) (d : Document) : Prop :=
  ∃ w, d.saveWrite? = some w ∧ verdict w.1 = .ok ()

/-- Why a document is not saved to its path: it has no bytes, and is not even offered, or
it is refused. -/
inductive Fails (verdict : Path → Except String Unit) (d : Document) (p : Path) :
    List WriteCall → String → Prop
  | unencodable : encodeText? d.content d.encoding = none →
    Fails verdict d p [] ("content of " ++ d.name ++ " is not representable in " ++ d.encoding)
  | refused {data reason} : encodeText? d.content d.encoding = some data →
    verdict p = .error reason → Fails verdict d p [⟨p, data, some reason⟩] reason

end Document

variable {verdict : Path → Except String Unit} {d : Document} {p : Path}
variable {calls : List WriteCall} {reason : String}

theorem Document.Fails.not_storable (h : d.Fails verdict p calls reason)
    (hpath : d.path = some p) : ¬d.Storable verdict := by
  rintro ⟨w, hw, hok⟩
  obtain ⟨hp, hdata⟩ := Document.saveWrite?_eq_some_iff.mp hw
  obtain rfl : p = w.1 := Option.some.inj (hpath.symm.trans hp)
  cases h with
  | unencodable henc => simp [henc] at hdata
  | refused _ hrefused => simp [hok] at hrefused

/-- What failed does not count as written. -/
theorem Document.Fails.written (h : d.Fails verdict p calls reason) {r : Recorded σ}
    {ws : List (Path × Bytes)} (hcalls : r.calls = ws.map .done ++ calls) : r.written = ws := by
  cases h <;>
    simp [Recorded.written, hcalls, List.filter_map, Function.comp_def, WriteCall.done]

end

namespace Session

section

variable [FurtherCharsets]

/-- A save that goes through: the pending documents can all be stored, each is written
once, in order, and is clean then, and the answer is their number. -/
structure SavesAll (s : Session) (which : Shelf) (verdict : Path → Except String Unit)
    (t : Recorded σ × Step Nat) (ws : List (Path × Bytes)) : Prop where
  storable : ∀ d ∈ s.pending which, d.Storable verdict
  writes_eq : (s.pending which).map Document.saveWrite? = ws.map some
  calls : t.1.calls = ws.map .done
  result : t.2.result = .ok (s.pending which).length
  session : t.2.session = s.setDocuments which ((s.shelf which).documents.map .saved)

/-- A save that ends at the first pending document that cannot be stored: those before it
are written and clean, it is not written itself, and it and all behind it stay as they were. -/
structure StopsAt (s : Session) (which : Shelf) (verdict : Path → Except String Unit)
    (t : Recorded σ × Step Nat) (ws : List (Path × Bytes)) (before : List Document)
    (d : Document) (after : List Document) : Prop where
  docs_eq : (s.shelf which).documents = before ++ d :: after
  storable : ∀ e ∈ before, e.isPending = true → e.Storable verdict
  pending : d.isPending = true
  unstorable : ¬d.Storable verdict
  writes_eq : (before.filter Document.isPending).map Document.saveWrite? = ws.map some
  fails : ∃ p calls reason, d.path = some p ∧ d.Fails verdict p calls reason ∧
    t.1.calls = ws.map .done ++ calls ∧ t.2.result = .error (.storage p reason)
  session : t.2.session = s.setDocuments which (before.map .saved ++ d :: after)

variable {storage : Storage σ} {verdict : Path → Except String Unit} {which : Shelf} {s : Session}
variable {store : σ} {t : Recorded σ × Step Nat} {ws : List (Path × Bytes)}
variable {before after : List Document} {d : Document}

/-- With a storage that judges by the path, nothing is left when saving ends, or what is left
begins with a document that has failed. -/
theorem SaveEnd.fails (hverdict : storage.Judges verdict) {mid last : Recorded σ}
    {left : List Document} {failure : Option Failure}
    (h : SaveEnd storage.recorded mid left failure last) :
    (left = [] ∧ failure = none ∧ last = mid) ∨
      ∃ d after p calls reason, left = d :: after ∧ d.dirty = true ∧ d.path = some p ∧
        d.Fails verdict p calls reason ∧ last.calls = mid.calls ++ calls ∧
        failure = some (.storage p reason) := by
  cases h with
  | done => exact .inl ⟨rfl, rfl, rfl⟩
  | unencodable hdirty hpath henc =>
      exact .inr ⟨_, _, _, [], _, rfl, hdirty, hpath, .unencodable henc,
        (List.append_nil _).symm, rfl⟩
  | @refused d after p data _ reason hdirty hpath henc hwrite =>
      have hrefused : verdict p = .error reason := by
        rw [← hverdict.recorded mid p data, hwrite]
      exact .inr ⟨d, after, p, _, reason, rfl, hdirty, hpath, .refused henc hrefused,
        (Storage.write_recorded_error hwrite).2, rfl⟩

/-- A save with a storage that judges by the path goes through or stops. -/
theorem save_judged (hverdict : storage.Judges verdict)
    (h : s.save storage.recorded ⟨store, []⟩ which = t) :
    (∃ ws, s.SavesAll which verdict t ws) ∨
      ∃ ws before d after, s.StopsAt which verdict t ws before d after := by
  obtain ⟨saving, before, left, ws, mid, hsaved, hstore, hsession, hresult⟩ := save_saved _ _ s _ h
  have hcalls : mid.calls = ws.map .done := hsaved.writes.calls
  have hstorable : ∀ e ∈ before, e.isPending = true → e.Storable verdict := by
    intro e he hpending
    obtain ⟨w, hw, heq⟩ := hsaved.exists_write he hpending
    exact ⟨w, heq, hverdict.recorded.ok_of_writes hsaved.writes w hw⟩
  have hdocs := hsaved.docs_eq
  rw [hsaved.documents_eq] at hsession
  rcases hsaved.ends.fails hverdict with
    ⟨rfl, hfailure, hlast⟩ | ⟨d, after, p, calls, reason, rfl, hdirty, hpath, hfails, hlast, hfailure⟩
  · rw [List.append_nil] at hdocs hsession
    subst hdocs
    refine .inl ⟨ws, fun d hd => ?_, hsaved.writes_eq, ?_, ?_, hsession⟩
    · obtain ⟨hmem, hpending⟩ := List.mem_filter.mp hd
      exact hstorable d hmem hpending
    · rw [hstore, hlast, hcalls]
    · rw [hresult, hfailure, hsaved.length_eq]
      rfl
  · refine .inr ⟨ws, before, d, after, hdocs, hstorable,
      Document.isPending_iff.mpr ⟨hdirty, p, hpath⟩, hfails.not_storable hpath, hsaved.writes_eq,
      ⟨p, calls, reason, hpath, hfails, ?_, ?_⟩, hsession⟩
    · rw [hstore, hlast, hcalls]
    · rw [hresult, hfailure]

/-- A save does not end at a document that it has not to write. -/
theorem SaveEnd.eq_nil {mid last : σ} {left : List Document} {failure : Option Failure}
    (h : SaveEnd storage mid left failure last) (hleft : ∀ d ∈ left, d.isPending = false) :
    left = [] ∧ failure = none ∧ last = mid := by
  cases h with
  | done => exact ⟨rfl, rfl, rfl⟩
  | @unencodable d ds p hdirty hpath _ | @refused d ds p _ _ _ hdirty hpath _ _ =>
      have hpending := hleft d List.mem_cons_self
      rw [Document.isPending_iff.mpr ⟨hdirty, p, hpath⟩] at hpending
      cases hpending

/-- A save with nothing to write. -/
theorem save_quiet (storage : Storage σ) (store : σ) (h : s.pending which = []) :
    (s.save storage store which).1 = store ∧ (s.save storage store which).2.result = .ok 0 ∧
      (s.save storage store which).2.session = s := by
  obtain ⟨saving, docs, left, ws, mid, hsaved, hstore, hsession, hresult⟩ :=
    save_saved storage which s store rfl
  have hnot : ∀ d ∈ docs ++ left, d.isPending = false := by
    intro d hd
    rw [← hsaved.docs_eq] at hd
    simpa using List.filter_eq_nil_iff.mp h d hd
  obtain ⟨hdocs, hleft⟩ := List.forall_mem_append.mp hnot
  obtain ⟨rfl, hfailure, hlast⟩ := hsaved.ends.eq_nil hleft
  have hws : ws = [] := by
    have hnone : docs.filter Document.isPending = [] :=
      List.filter_eq_nil_iff.mpr fun d hd => by simp [hdocs d hd]
    simpa [hnone] using hsaved.writes_eq.symm
  subst hws
  have hmid : mid = store := by
    cases hsaved.writes
    rfl
  have hsame : docs.map Document.saved = docs :=
    (List.map_congr_left fun d hd => Document.saved_of_not_pending (hdocs d hd)).trans docs.map_id
  refine ⟨hstore.trans (hlast.trans hmid), by rw [hresult, hfailure]; rfl, ?_⟩
  rw [hsession, hsaved.documents_eq, hsame, ← hsaved.docs_eq, setDocuments_self]

/-- After a save that went through there is nothing to write. -/
theorem SavesAll.pending_eq (h : s.SavesAll which verdict t ws) : t.2.session.pending which = [] := by
  rw [h.session, pending, documents_setDocuments, filter_pending_saved]

theorem StopsAt.written (h : s.StopsAt which verdict t ws before d after) : t.1.written = ws := by
  obtain ⟨p, calls, reason, -, hfails, hcalls, -⟩ := h.fails
  exact hfails.written hcalls

/-- A save stops at a document that it was to write. -/
theorem StopsAt.mem_pending (h : s.StopsAt which verdict t ws before d after) :
    d ∈ s.pending which := by
  rw [Session.pending, h.docs_eq, List.filter_append, List.filter_cons_of_pos h.pending]
  exact List.mem_append_right _ List.mem_cons_self

/-- After a save that stopped there is left to write what was not written. -/
theorem StopsAt.pending_eq (h : s.StopsAt which verdict t ws before d after) :
    t.2.session.pending which = (d :: after).filter Document.isPending := by
  rw [h.session, Session.pending, documents_setDocuments, List.filter_append,
    filter_pending_saved, List.nil_append]

/-- A save goes through when everything that it is to write can be stored. -/
theorem exists_savesAll (hverdict : storage.Judges verdict)
    (h : s.save storage.recorded ⟨store, []⟩ which = t)
    (hstorable : ∀ d ∈ s.pending which, d.Storable verdict) :
    ∃ ws, s.SavesAll which verdict t ws := by
  refine (save_judged hverdict h).resolve_right ?_
  rintro ⟨ws, before, d, after, hstops⟩
  exact hstops.unstorable (hstorable d hstops.mem_pending)

/-- What a save has written and what it leaves to write make up what there was to write, and
with all that saved the session is as if all had been saved at once. -/
theorem save_leaves (hverdict : storage.Judges verdict)
    (h : s.save storage.recorded ⟨store, []⟩ which = t) :
    t.2.session.pending which ⊆ s.pending which ∧
      (s.pending which).map Document.saveWrite? =
        t.1.written.map some ++ (t.2.session.pending which).map Document.saveWrite? ∧
      t.2.session.setDocuments which ((t.2.session.shelf which).documents.map .saved) =
        s.setDocuments which ((s.shelf which).documents.map .saved) := by
  rcases save_judged hverdict h with ⟨ws, hall⟩ | ⟨ws, before, d, after, hstops⟩
  · rw [hall.pending_eq, Recorded.written_of_calls hall.calls, hall.writes_eq]
    refine ⟨List.nil_subset _, (List.append_nil _).symm, ?_⟩
    rw [hall.session, documents_setDocuments, setDocuments_setDocuments, map_saved_saved]
  · have hpending : s.pending which =
        before.filter Document.isPending ++ (d :: after).filter Document.isPending := by
      rw [pending, hstops.docs_eq, List.filter_append]
    rw [hstops.pending_eq, hstops.written, hpending]
    refine ⟨List.subset_append_right _ _, by rw [List.map_append, hstops.writes_eq], ?_⟩
    rw [hstops.session, documents_setDocuments, setDocuments_setDocuments, hstops.docs_eq,
      List.map_append, List.map_append, map_saved_saved]

/-- A save writes the pending documents in order, up to the first that cannot be stored, and
changes nothing but the marks of what it wrote. When it went through, another save writes
nothing; when all pending documents have bytes, another save to where none is refused
writes what is left, so that in the end each is written once. -/
theorem save_prefix (s : Session) (which : Shelf) (storage : Storage σ) (store : σ)
    {verdict : Path → Except String Unit} (hverdict : storage.Judges verdict) :
    let t := s.save storage.recorded ⟨store, []⟩ which
    (t.1.store, t.2) = s.save storage store which ∧
    ((∃ ws, s.SavesAll which verdict t ws ∧ ∀ {τ : Type} (storage' : Storage τ) (store' : τ),
        let u := t.2.session.save storage'.recorded ⟨store', []⟩ which
        u.1 = ⟨store', []⟩ ∧ u.2.result = .ok 0 ∧ u.2.session = t.2.session) ∨
      ∃ ws before d after, s.StopsAt which verdict t ws before d after) ∧
    ((∀ d ∈ s.pending which, (encodeText? d.content d.encoding).isSome) →
      ∀ {τ : Type} (storage' : Storage τ) (store' : τ) {verdict' : Path → Except String Unit},
        storage'.Judges verdict' →
        (∀ d ∈ s.pending which, ∀ p, d.path = some p → verdict' p = .ok ()) →
        let u := t.2.session.save storage'.recorded ⟨store', []⟩ which
        ∃ rest, u.1.calls = rest.map .done ∧ u.2.result = .ok rest.length ∧
          (s.pending which).map Document.saveWrite? = (t.1.written ++ rest).map some ∧
          u.2.session = s.setDocuments which ((s.shelf which).documents.map .saved)) := by
  intro t
  have hends := save_judged hverdict (rfl : s.save storage.recorded ⟨store, []⟩ which = t)
  refine ⟨save_recorded storage s which ⟨store, []⟩, ?_, ?_⟩
  · rcases hends with ⟨ws, hall⟩ | hstops
    · exact .inl ⟨ws, hall, fun storage' store' =>
        save_quiet storage'.recorded ⟨store', []⟩ hall.pending_eq⟩
    · exact .inr hstops
  · intro hencodable τ storage' store' verdict' hverdict' haccepted u
    obtain ⟨hsubset, hwrites, hsession⟩ := save_leaves hverdict (rfl : _ = t)
    have hstorable : ∀ d ∈ t.2.session.pending which, d.Storable verdict' := by
      intro d hd
      obtain ⟨-, p, hpath⟩ := Document.isPending_iff.mp (List.mem_filter.mp hd).2
      obtain ⟨data, henc⟩ := Option.isSome_iff_exists.mp (hencodable d (hsubset hd))
      exact ⟨(p, data), Document.saveWrite?_eq_some_iff.mpr ⟨hpath, henc⟩,
        haccepted d (hsubset hd) p hpath⟩
    obtain ⟨rest, hall⟩ := exists_savesAll hverdict' (rfl : _ = u) hstorable
    refine ⟨rest, hall.calls, ?_, ?_, ?_⟩
    · rw [hall.result, ← List.length_map, hall.writes_eq, List.length_map]
    · rw [hwrites, hall.writes_eq, List.map_append]
    · rw [hall.session, hsession]

end

attribute [local instance] FurtherCharsets.none in
/-- Of three sources with changes the second is refused. When it no longer is, another save
writes it and the third. -/
theorem save_prefix_refused :
    let file (name content : String) : Document := ⟨name, some (.ofText name), content, "utf-8", true⟩
    let s : Session := { empty with sources := .ofList [file "a" "1", file "b" "2", file "c" "3"] }
    let verdict (p : Path) : Except String Unit :=
      if p = .ofText "b" then .error "denied" else .ok ()
    let t := s.save (Storage.judging verdict).recorded ⟨[], []⟩ .sources
    let u := t.2.session.save (Storage.judging fun _ => .ok ()).recorded ⟨[], []⟩ .sources
    (Storage.judging verdict).Judges verdict ∧
      t.2.result = .error (.storage (.ofText "b") "denied") ∧
      t.1.written = [(.ofText "a", [0x31])] ∧
      ∃ rest, u.1.calls = rest.map .done ∧ u.2.result = .ok rest.length ∧
        (s.pending .sources).map Document.saveWrite? = (t.1.written ++ rest).map some := by
  intro file s verdict t u
  have hverdict : (Storage.judging verdict).Judges verdict := Storage.judges_judging verdict
  refine ⟨hverdict, by decide +kernel, by decide +kernel, ?_⟩
  obtain ⟨-, -, hretry⟩ := save_prefix s .sources (Storage.judging verdict) [] hverdict
  obtain ⟨rest, hcalls, hresult, hwrites, -⟩ := hretry (by decide +kernel)
    (Storage.judging fun _ => .ok ()) [] (Storage.judges_judging _) fun _ _ _ _ => rfl
  simp only [u, t]
  exact ⟨rest, hcalls, hresult, hwrites⟩

/-- A text that a further charset has no bytes for does not reach the storage. -/
example :
    letI : FurtherCharsets := ⟨fun label =>
      if label = "koi8-r" then
        some fun text => if text.toList.all (·.toNat < 0x80) then some (Utf8.encode text) else none
      else none⟩
    let d : Document := ⟨"a", some (.ofText "a"), "中", "KOI8-R", true⟩
    let t := ({ empty with targets := .ofList [d] } : Session).save
      (Storage.judging fun _ => .ok ()).recorded ⟨[], []⟩ .targets
    t.1.calls = [] ∧ t.2.session.targets.documents = [d] ∧
      t.2.result =
        .error (.storage (.ofText "a") "content of a is not representable in KOI8-R") := by
  decide +kernel

end Session

end SourceDesk
