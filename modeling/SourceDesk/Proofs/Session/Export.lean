import SourceDesk.Proofs.Path
import SourceDesk.Proofs.Session.Course
import SourceDesk.Proofs.Storage.Writes

/-! Writing all targets below a directory. Either a single name that leads out of it keeps
everything from being written, or the targets are written in order, each at the path that
its name has from there, up to the first that cannot be. -/
namespace SourceDesk.Session

variable {σ : Type}

/-- Whether a name leads out of the directory that it is seen from, or to nothing in it: it
is empty, starts with a slash, or has a dot for its first segment or two dots for any. -/
def LeadsOut (name : String) : Prop :=
  name = "" ∨ name.toList.head? = some '/' ∨ (name.toList.splitOn '/').head? = some ['.'] ∨
    ['.', '.'] ∈ name.toList.splitOn '/'

theorem isExportable_iff {d : Document} : isExportable d = true ↔ ¬LeadsOut d.name :=
  Path.isPlainRelative_ofText d.name

/-- Below a directory: its components, and then names only, at least one. -/
theorem components_exportPath {dir : Path} {d : Document} (h : ¬LeadsOut d.name) :
    ∃ names, names ≠ [] ∧
      (exportPath dir d).components = dir.components ++ names.map .normal ∧
      ∀ n ∈ names, Path.Proper n := by
  have hplain := isExportable_iff.mpr h
  obtain ⟨-, hne, hproper⟩ := Path.components_of_plain hplain
  exact ⟨_, hne, Path.components_join_of_plain dir hplain, hproper⟩

theorem unencodable_ne_outside (name encoding : String) :
    "content of " ++ name ++ " is not representable in " ++ encoding ≠ outsideReason := by
  intro h
  have hhead := congrArg (fun s : String => s.toList.head?) h
  simp [outsideReason, String.toList_append] at hhead

variable [FurtherCharsets]

/-- Where a document goes below a directory, and as which bytes, if its charset has any. -/
def exportWrite? (dir : Path) (d : Document) : Option (Path × Bytes) :=
  (encodeText? d.content d.encoding).map fun data => (exportPath dir d, data)

/-- How writing documents below a directory ends when it comes to the ones that are left:
there are none, the first has no bytes, or the storage refuses it. -/
inductive ExportEnd (storage : Storage σ) (dir : Path) (store : σ) :
    List Document → Option Failure → σ → Prop
  | done : ExportEnd storage dir store [] none store
  | unencodable {d ds} : encodeText? d.content d.encoding = none →
    ExportEnd storage dir store (d :: ds)
      (some (.storage (exportPath dir d)
        ("content of " ++ d.name ++ " is not representable in " ++ d.encoding))) store
  | refused {d ds data store' reason} : encodeText? d.content d.encoding = some data →
    storage.write store (exportPath dir d) data = (store', .error reason) →
    ExportEnd storage dir store (d :: ds) (some (.storage (exportPath dir d) reason)) store'

/-- What writing documents below a directory came to: the first ones are written and have
their paths, the others are as they were. -/
structure Exported (storage : Storage σ) (dir : Path) (store : σ) (docs : List Document)
    (saving : Saving σ Path) (before after : List Document) (ws : List (Path × Bytes))
    (mid : σ) : Prop where
  docs_eq : docs = before ++ after
  writes_eq : before.map (exportWrite? dir) = ws.map some
  writes : storage.Writes store ws mid
  ends : ExportEnd storage dir mid after saving.failure saving.store
  written_eq : saving.written = before.map (exportPath dir)
  documents_eq : saving.documents = before.map (fun d => d.stored (exportPath dir d)) ++ after

section

variable (storage : Storage σ) (dir : Path) {store : σ} {docs : List Document}

theorem exportEach_exported (docs : List Document) (slot : Nat) (store : σ) {saving : Saving σ Path}
    (h : exportEach storage dir slot store docs = saving) :
    ∃ before after ws mid, Exported storage dir store docs saving before after ws mid := by
  -- on the documents that are left: slot and store move on with each that is written
  induction docs generalizing slot store saving with
  | nil =>
      subst h
      exact ⟨[], [], [], store, rfl, rfl, .nil, .done, rfl, rfl⟩
  | cons d docs ih =>
      simp only [exportEach, Document.writeTo] at h
      cases henc : encodeText? d.content d.encoding with
      | none =>
          simp only [henc] at h
          subst h
          exact ⟨[], d :: docs, [], store, rfl, rfl, .nil, .unencodable henc, rfl, rfl⟩
      | some data =>
          rcases hw : storage.write store (exportPath dir d) data with ⟨store', reason | ⟨⟩⟩
          · simp only [henc, hw] at h
            subst h
            exact ⟨[], d :: docs, [], store, rfl, rfl, .nil, .refused henc hw, rfl, rfl⟩
          · simp only [henc, hw] at h
            obtain ⟨before, after, ws, mid, hrest⟩ := ih (slot + 1) store' rfl
            subst h
            refine ⟨d :: before, after, (exportPath dir d, data) :: ws, mid, ?_, ?_, ?_,
              hrest.ends, ?_, ?_⟩
            · rw [hrest.docs_eq]
              rfl
            · simp [exportWrite?, henc, hrest.writes_eq]
            · exact .cons hw hrest.writes
            · simp [hrest.written_eq]
            · simp [hrest.documents_eq, Document.stored]

variable {storage dir} in
/-- Without a failure all documents are written. -/
theorem Exported.complete {saving : Saving σ Path} {before after : List Document}
    {ws : List (Path × Bytes)} {mid : σ}
    (h : Exported storage dir store docs saving before after ws mid)
    (hfailure : saving.failure = none) : before = docs ∧ mid = saving.store := by
  have hdocs := h.docs_eq
  have hends := h.ends
  rw [hfailure] at hends
  generalize saving.store = last at hends ⊢
  cases hends
  exact ⟨by simp [hdocs], rfl⟩

theorem exportTargets_cases (s : Session) (store : σ) {t : σ × Step (List Path)}
    (h : s.exportTargets storage store dir = t) :
    (∃ before bad after, s.targets.documents = before ++ bad :: after ∧ LeadsOut bad.name ∧
      (∀ d ∈ before, ¬LeadsOut d.name) ∧ t.1 = store ∧ t.2.session = s ∧
      t.2.result = .error (.storage (exportPath dir bad) outsideReason)) ∨
    ((∀ d ∈ s.targets.documents, ¬LeadsOut d.name) ∧ ∃ saving before after ws mid,
      Exported storage dir store s.targets.documents saving before after ws mid ∧
      t.1 = saving.store ∧ t.2.session = s.setDocuments .targets saving.documents ∧
      t.2.result = match saving.failure with
        | some failure => .error failure
        | none => .ok saving.written) := by
  unfold exportTargets at h
  cases hfind : s.targets.documents.find? fun d => !isExportable d with
  | some bad =>
      simp only [hfind] at h
      subst h
      obtain ⟨hbad, before, after, hdocs, hbefore⟩ := List.find?_eq_some_iff_append.mp hfind
      refine .inl ⟨before, bad, after, hdocs, ?_, ?_, rfl, rfl, rfl⟩
      · by_contra hin
        simp [isExportable_iff.mpr hin] at hbad
      · intro d hd
        exact isExportable_iff.mp (by simpa using hbefore d hd)
  | none =>
      simp only [hfind] at h
      subst h
      refine .inr ⟨?_, ?_⟩
      · intro d hd
        exact isExportable_iff.mp (by simpa using List.find?_eq_none.mp hfind d hd)
      · obtain ⟨before, after, ws, mid, hexported⟩ :=
          exportEach_exported storage dir s.targets.documents 0 store rfl
        exact ⟨_, before, after, ws, mid, hexported, rfl, rfl, rfl⟩

variable {storage dir} in
/-- An export that goes through: every target is written below the directory, in order, and
has its path from there. -/
theorem exportTargets_ok {s : Session} {paths : List Path}
    (h : (s.exportTargets storage store dir).2.result = .ok paths) :
    (∀ d ∈ s.targets.documents, isExportable d = true) ∧
    paths = s.targets.documents.map (exportPath dir) ∧
    (∃ ws, s.targets.documents.map (exportWrite? dir) = ws.map some ∧
      storage.Writes store ws (s.exportTargets storage store dir).1) ∧
    (s.exportTargets storage store dir).2.session = s.setDocuments .targets
      (s.targets.documents.map fun d => d.stored (exportPath dir d)) := by
  rcases exportTargets_cases storage dir s store rfl with
    ⟨_, _, _, -, -, -, -, -, hresult⟩ |
    ⟨hin, saving, before, after, ws, mid, hexported, hstore, hsession, hresult⟩
  · simp [hresult] at h
  · cases hfailure : saving.failure with
    | some failure => simp [hresult, hfailure] at h
    | none =>
        obtain ⟨rfl, rfl⟩ := hexported.complete hfailure
        have hafter : after = [] := by simpa using hexported.docs_eq
        have hpaths : saving.written = paths := by simpa [hresult, hfailure] using h
        refine ⟨fun d hd => isExportable_iff.mpr (hin d hd), ?_,
          ⟨ws, hexported.writes_eq, hstore ▸ hexported.writes⟩, ?_⟩
        · rw [← hpaths, hexported.written_eq]
        · rw [hsession, hexported.documents_eq, hafter, List.append_nil]

/-! ### Records -/

/-- What writing came to without the record that was kept of it. -/
def Saving.forget {α : Type} (saving : Saving (Recorded σ) α) : Saving σ α :=
  ⟨saving.store.store, saving.documents, saving.written, saving.failure, saving.events⟩

theorem exportEach_recorded (docs : List Document) (slot : Nat) (r : Recorded σ) :
    (exportEach storage.recorded dir slot r docs).forget =
      exportEach storage dir slot r.store docs := by
  induction docs generalizing slot r with
  | nil => rfl
  | cons d docs ih =>
      simp only [exportEach, Document.writeTo, Storage.recorded]
      cases encodeText? d.content d.encoding with
      | none => rfl
      | some data =>
          rcases hw : storage.write r.store (exportPath dir d) data with ⟨store', reason | ⟨⟩⟩
          · simp [hw, Saving.forget]
          · have hrest := ih (slot + 1) ⟨store', r.calls ++ [⟨exportPath dir d, data, none⟩]⟩
            simp only [hw, ← hrest]
            rfl

/-- A record changes nothing of an export. -/
theorem exportTargets_recorded (s : Session) (r : Recorded σ) :
    ((s.exportTargets storage.recorded r dir).1.store, (s.exportTargets storage.recorded r dir).2) =
      s.exportTargets storage r.store dir := by
  unfold exportTargets
  cases s.targets.documents.find? fun d => !isExportable d with
  | some bad => rfl
  | none =>
      simp only [← exportEach_recorded]
      rfl

variable {storage dir} {saving : Saving (Recorded σ) Path} {before after : List Document}
variable {ws : List (Path × Bytes)} {mid : Recorded σ}

theorem map_fst_writes {before : List Document}
    (h : before.map (exportWrite? dir) = ws.map some) :
    ws.map Prod.fst = before.map (exportPath dir) := by
  induction before generalizing ws with
  | nil =>
      obtain rfl : ws = [] := by simpa using h.symm
      rfl
  | cons d before ih =>
      cases ws with
      | nil => cases h
      | cons w ws =>
          obtain ⟨hd, hrest⟩ := List.cons.inj h
          obtain ⟨data, -, rfl⟩ := Option.map_eq_some_iff.mp hd
          rw [List.map_cons, List.map_cons, ih hrest]

/-- The calls of an export: the writes that went well, and the one that was refused, if
that is what ended it. -/
theorem Exported.calls_cases
    (h : Exported storage.recorded dir ⟨store, []⟩ docs saving before after ws mid) :
    (saving.store.calls = ws.map .done ∧ after = [] ∧ saving.failure = none) ∨
    (∃ d rest, after = d :: rest ∧ encodeText? d.content d.encoding = none ∧
      saving.store.calls = ws.map .done ∧ saving.failure = some (.storage (exportPath dir d)
        ("content of " ++ d.name ++ " is not representable in " ++ d.encoding))) ∨
    ∃ d rest data reason, after = d :: rest ∧ encodeText? d.content d.encoding = some data ∧
      saving.store.calls = ws.map .done ++ [⟨exportPath dir d, data, some reason⟩] ∧
      saving.failure = some (.storage (exportPath dir d) reason) := by
  have hcalls : mid.calls = ws.map .done := h.writes.calls
  have hends := h.ends
  generalize saving.failure = failure at hends
  generalize saving.store = last at hends
  cases hends with
  | done => exact .inl ⟨hcalls, rfl, rfl⟩
  | @unencodable d ds henc => exact .inr (.inl ⟨d, ds, rfl, henc, hcalls, rfl⟩)
  | @refused d ds data store' reason henc hw =>
      refine .inr (.inr ⟨d, ds, data, reason, rfl, henc, ?_, rfl⟩)
      rw [(Storage.write_recorded_error hw).2, hcalls]

/-- The paths of the calls are those of the first documents. -/
theorem Exported.calls_prefix
    (h : Exported storage.recorded dir ⟨store, []⟩ docs saving before after ws mid) :
    ∃ tried, tried <+: docs ∧ saving.store.calls.map WriteCall.path = tried.map (exportPath dir) := by
  have hdone : (ws.map WriteCall.done).map WriteCall.path = before.map (exportPath dir) := by
    rw [List.map_map, ← map_fst_writes h.writes_eq]
    rfl
  rcases h.calls_cases with ⟨hcalls, -⟩ | ⟨d, rest, -, -, hcalls, -⟩ |
    ⟨d, rest, data, reason, hafter, -, hcalls, -⟩
  · exact ⟨before, ⟨after, h.docs_eq.symm⟩, by rw [hcalls, hdone]⟩
  · exact ⟨before, ⟨after, h.docs_eq.symm⟩, by rw [hcalls, hdone]⟩
  · refine ⟨before ++ [d], ⟨rest, ?_⟩, ?_⟩
    · rw [h.docs_eq, hafter, List.append_assoc]
      rfl
    · rw [hcalls, List.map_append, hdone, List.map_append]
      rfl

/-- An export that ran does not look like one that was refused: it made a call, or it ended
for another reason. -/
theorem Exported.ne_refused
    (h : Exported storage.recorded dir ⟨store, []⟩ docs saving before after ws mid) (p : Path) :
    ¬(saving.store.calls = [] ∧ saving.failure = some (.storage p outsideReason)) := by
  rintro ⟨hcalls, hrefused⟩
  rcases h.calls_cases with ⟨-, -, hfailure⟩ | ⟨d, rest, -, -, -, hfailure⟩ |
    ⟨d, rest, data, reason, -, -, hcall, -⟩
  · simp [hfailure] at hrefused
  · simp only [hfailure, Option.some.injEq, Failure.storage.injEq] at hrefused
    exact unencodable_ne_outside _ _ hrefused.2
  · simp [hcall] at hcalls

/-- An export is refused when some name leads out of the directory, and only then: nothing
is written, nothing changes, and the error has the first such name. Every other path that
is written leads from the directory into it, along names only. -/
theorem exportTargets_inside (s : Session) (dir : Path) (storage : Storage σ) (store : σ) :
    let t := s.exportTargets storage.recorded ⟨store, []⟩ dir
    let refused := t.1.calls = [] ∧ ∃ p, t.2.result = .error (.storage p outsideReason)
    (t.1.store, t.2) = s.exportTargets storage store dir ∧
    (refused ↔ ∃ d ∈ s.targets.documents, LeadsOut d.name) ∧
    (refused → t.1.store = store ∧ t.2.session = s ∧ ∃ before bad after,
      s.targets.documents = before ++ bad :: after ∧ LeadsOut bad.name ∧
      (∀ d ∈ before, ¬LeadsOut d.name) ∧
      t.2.result = .error (.storage (dir.join (.ofText bad.name)) outsideReason)) ∧
    (∀ call ∈ t.1.calls, ∃ d ∈ s.targets.documents, call.path = dir.join (.ofText d.name) ∧
      ∃ names, names ≠ [] ∧ call.path.components = dir.components ++ names.map .normal ∧
        ∀ n ∈ names, Path.Proper n) ∧
    ∀ paths, t.2.result = .ok paths → t.1.calls.map WriteCall.path = paths ∧
      paths = s.targets.documents.map fun d => dir.join (.ofText d.name) := by
  intro t refused
  refine ⟨exportTargets_recorded storage dir s ⟨store, []⟩, ?_⟩
  rcases exportTargets_cases storage.recorded dir s ⟨store, []⟩ (t := t) rfl with
    ⟨before, bad, after, hdocs, hbad, hbefore, hstore, hsession, hresult⟩ |
    ⟨hin, saving, before, after, ws, mid, hexported, hstore, hsession, hresult⟩
  · have hcalls : t.1.calls = [] := by rw [hstore]
    refine ⟨?_, ?_, ?_, ?_⟩
    · exact ⟨fun _ => ⟨bad, by simp [hdocs], hbad⟩, fun _ => ⟨hcalls, _, hresult⟩⟩
    · exact fun _ => ⟨by rw [hstore], hsession, before, bad, after, hdocs, hbad, hbefore, hresult⟩
    · simp [hcalls]
    · intro paths hpaths
      rw [hresult] at hpaths
      cases hpaths
  · have hnot : ¬refused := by
      rintro ⟨hcalls, p, herror⟩
      rw [hstore] at hcalls
      refine hexported.ne_refused p ⟨hcalls, ?_⟩
      cases hfailure : saving.failure with
      | none => simp [hresult, hfailure] at herror
      | some failure => simpa [hresult, hfailure] using herror
    refine ⟨?_, ?_, ?_, ?_⟩
    · exact ⟨fun h => absurd h hnot, fun ⟨d, hd, hout⟩ => absurd hout (hin d hd)⟩
    · exact fun h => absurd h hnot
    · intro call hcall
      obtain ⟨tried, htried, hpaths⟩ := hexported.calls_prefix
      rw [hstore] at hcall
      have hmem : call.path ∈ tried.map (exportPath dir) := by
        rw [← hpaths]
        exact List.mem_map_of_mem hcall
      obtain ⟨d, hd, hpath⟩ := List.mem_map.mp hmem
      have hdoc : d ∈ s.targets.documents := htried.subset hd
      rw [← hpath]
      exact ⟨d, hdoc, rfl, components_exportPath (hin d hdoc)⟩
    · intro paths hpaths
      have hfailure : saving.failure = none := by
        cases hfailure : saving.failure with
        | none => rfl
        | some failure => simp [hresult, hfailure] at hpaths
      obtain ⟨rfl, rfl⟩ := hexported.complete hfailure
      have hwritten : saving.written = paths := by simpa [hresult, hfailure] using hpaths
      have hcalls : saving.store.calls = ws.map .done := hexported.writes.calls
      rw [← hwritten, hexported.written_eq, hstore, hcalls, List.map_map]
      exact ⟨map_fst_writes hexported.writes_eq, rfl⟩

end

end SourceDesk.Session
