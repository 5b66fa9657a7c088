import SourceDesk.Proofs.Session.Dirty
import SourceDesk.Proofs.Session.Saving
import SourceDesk.Proofs.Session.Submission
import SourceDesk.Proofs.Text.Charset

/-! Sources have a place. Whatever is done to a session, each of its sources has the name,
the path and the charset of the file that was read last under its name. So a save has no
source to pass over, and one that goes well leaves no change of a source behind. -/
namespace SourceDesk

namespace Deed

/-- A file was read, and since then none that has the same name. -/
def LastRead (ds : List Deed) (p : Path) (data : Bytes) : Prop :=
  ∃ before after, ds = before ++ .loaded p data :: after ∧
    ∀ x ∈ after, x.loadedName? ≠ some p.documentName

variable {ds : List Deed} {p : Path} {data : Bytes} {x : Deed}

theorem lastRead_loaded : LastRead (ds ++ [.loaded p data]) p data := ⟨ds, [], rfl, by simp⟩

theorem LastRead.concat (h : LastRead ds p data) (hx : x.loadedName? ≠ some p.documentName) :
    LastRead (ds ++ [x]) p data := by
  obtain ⟨before, after, rfl, hafter⟩ := h
  refine ⟨before, after ++ [x], by simp, fun y hy => ?_⟩
  rcases List.mem_append.mp hy with hy | hy
  · exact hafter y hy
  · rwa [List.mem_singleton.mp hy]

end Deed

/-- A document that has name, path and charset from a file, whatever became of its text. -/
structure Document.ReadFrom (d : Document) (p : Path) (data : Bytes) : Prop where
  name : d.name = p.documentName
  path : d.path = some p
  encoding : d.encoding = (DecodedText.decode data).encoding

section

variable {d : Document} {p : Path} {data : Bytes}

theorem Document.ReadFrom.loaded (p : Path) (data : Bytes) :
    (loaded p (.decode data)).ReadFrom p data :=
  ⟨rfl, rfl, rfl⟩

theorem Document.ReadFrom.commit (h : d.ReadFrom p data) (content : String) :
    (d.commit content).ReadFrom p data := by
  unfold Document.commit
  split
  · exact h
  · exact ⟨h.name, h.path, h.encoding⟩

theorem Document.ReadFrom.stored (h : d.ReadFrom p data) : (d.stored p).ReadFrom p data :=
  ⟨h.name, rfl, h.encoding⟩

end

namespace Session

/-- Each source is the file that was read last under its name. -/
structure Rooted (ds : List Deed) (s : Session) : Prop where
  wellFormed : s.WellFormed
  named : s.sources.Named
  read : ∀ {key d}, s.sources.get? key = some d →
    ∃ p data, p.documentName = key ∧ Deed.LastRead ds p data ∧ d.ReadFrom p data

variable {s t : Session} {ds : List Deed} {x : Deed}

theorem rooted_empty : Rooted [] .empty :=
  ⟨wellFormed_empty, DocumentSet.named_empty, by simp [empty]⟩

/-- A deed that reads no file and takes no source away from its own. -/
theorem Rooted.keep (h : Rooted ds s) (hx : x.loadedName? = none) (ht : t.WellFormed)
    (hnamed : t.sources.Named)
    (hget : ∀ {key e}, t.sources.get? key = some e → ∃ d, s.sources.get? key = some d ∧
      ∀ p data, d.ReadFrom p data → e.ReadFrom p data) :
    Rooted (ds ++ [x]) t := by
  refine ⟨ht, hnamed, fun {key e} he => ?_⟩
  obtain ⟨d, hd, hsame⟩ := hget he
  obtain ⟨p, data, hkey, hlast, hread⟩ := h.read hd
  exact ⟨p, data, hkey, hlast.concat (by simp [hx]), hsame p data hread⟩

theorem Rooted.elsewhere (h : Rooted ds s) (hx : x.loadedName? = none) (ht : t.WellFormed)
    (hsources : t.sources = s.sources) : Rooted (ds ++ [x]) t := by
  refine h.keep hx ht (hsources ▸ h.named) fun {key e} he => ⟨e, ?_, fun _ _ hread => hread⟩
  rwa [hsources] at he

theorem Rooted.load (h : Rooted ds s) (p : Path) (data : Bytes) :
    Rooted (ds ++ [.loaded p data]) (s.after (.loaded p data)) := by
  have hsources : s.sources.WellFormed := h.wellFormed .sources
  refine ⟨h.wellFormed.after_of nofun, h.named.insert hsources _, fun {key d} hget => ?_⟩
  simp only [Session.after, hsources.get?_insert] at hget
  split at hget
  · rename_i hkey
    obtain rfl := Option.some.inj hget
    exact ⟨p, data, hkey.symm, Deed.lastRead_loaded, .loaded p data⟩
  · rename_i hkey
    obtain ⟨q, data', rfl, hlast, hread⟩ := h.read hget
    exact ⟨q, data', rfl, hlast.concat fun hname => hkey (Option.some.inj hname).symm, hread⟩

theorem Rooted.commit (h : Rooted ds s) (name content : String) :
    Rooted (ds ++ [.committed .sources name content])
      (s.after (.committed .sources name content)) := by
  have hsources : s.sources.WellFormed := h.wellFormed .sources
  refine h.keep rfl (h.wellFormed.after_of nofun) (h.named.modify fun d _ => ?_)
    fun {key e} he => ?_
  · unfold Document.commit
    split <;> rfl
  · simp only [Session.after, setShelf, shelf, hsources.get?_modify] at he
    split at he
    · rename_i hkey
      subst hkey
      obtain ⟨d, hd, rfl⟩ := Option.map_eq_some_iff.mp he
      exact ⟨d, hd, fun _ _ hread => hread.commit content⟩
    · exact ⟨e, he, fun _ _ hread => hread⟩

theorem Rooted.write [FurtherCharsets] (h : Rooted ds s) {slot : Nat} {p : Path} {data : Bytes}
    (hp : Deed.Possible s (.written ⟨.sources, slot⟩ p data)) :
    Rooted (ds ++ [.written ⟨.sources, slot⟩ p data])
      (s.after (.written ⟨.sources, slot⟩ p data)) := by
  have hsources : s.sources.WellFormed := h.wellFormed .sources
  refine h.keep rfl (h.wellFormed.after hp) (h.named.modifySlot fun _ _ => rfl) fun {key e} he => ?_
  obtain ⟨d, hseat, -, hpath⟩ := hp
  simp only [Session.after, setShelf, shelf, hsources.get?_modifySlot] at he
  split at he
  · rename_i hkey
    obtain ⟨d', hd', rfl⟩ := Option.map_eq_some_iff.mp he
    refine ⟨d', hd', fun q data' hread => ?_⟩
    -- the document in the slot goes to the path that it has
    rw [hsources.get?_of_slot hkey, show s.sources.documents[slot]? = some d from hseat] at hd'
    obtain rfl := Option.some.inj hd'
    obtain rfl : p = q := Option.some.inj ((hpath rfl).symm.trans hread.path)
    exact hread.stored
  · exact ⟨e, he, fun _ _ hread => hread⟩

theorem Rooted.after [FurtherCharsets] (h : Rooted ds s) (hp : x.Possible s) :
    Rooted (ds ++ [x]) (s.after x) := by
  have ht := h.wellFormed.after hp
  cases x with
  | loaded p data => exact h.load p data
  | committed which name content =>
      cases which with
      | sources => exact h.commit name content
      | targets => exact h.elsewhere rfl ht rfl
  | written seat p data =>
      obtain ⟨which, slot⟩ := seat
      cases which with
      | sources => exact h.write hp
      | targets => exact h.elsewhere rfl ht rfl
  | replaced targets => exact h.elsewhere rfl ht rfl
  | translated language namespaceHint o => exact h.elsewhere rfl ht (sources_install _ o)
  | translatedAgain catalog o => exact h.elsewhere rfl ht (sources_install _ o)

theorem Rooted.readFrom (h : Rooted ds s) {d : Document} (hd : d ∈ s.sources.documents) :
    ∃ p data, Deed.LastRead ds p data ∧ d.ReadFrom p data := by
  obtain ⟨p, data, -, hlast, hread⟩ := h.read (h.named.get?_name (h.wellFormed .sources) hd)
  exact ⟨p, data, hlast, hread⟩

theorem Rooted.names_nodup (h : Rooted ds s) : s.sources.names.Nodup := by
  rw [show s.sources.names = s.sources.keys from h.named]
  exact (h.wellFormed .sources).nodup

/-- A source with changes is pending. -/
theorem Rooted.isPending_eq (h : Rooted ds s) {d : Document} (hd : d ∈ s.sources.documents) :
    d.isPending = d.dirty := by
  obtain ⟨p, data, -, hread⟩ := h.readFrom hd
  simp [Document.isPending, hread.path]

end Session

section

variable [FurtherCharsets] {σ : Type} (reader : Reader σ) (storage : Storage σ)

theorem run_rooted (store : σ) (ops : List Operation) :
    Session.Rooted (run reader storage store .empty ops).deeds
      (run reader storage store .empty ops).session :=
  run_induction reader storage Session.rooted_empty (fun _ _ _ hp h => h.after hp) store ops

end

/-! ### Saves and exports that go well -/

namespace Session

/-- What is left with changes when a save goes well has no path. -/
theorem filter_dirty_saved (docs : List Document) :
    (docs.map Document.saved).filter Document.dirty =
      docs.filter fun d => d.dirty && d.path.isNone := by
  induction docs with
  | nil => rfl
  | cons d docs ih =>
      rw [List.map_cons, List.filter_cons, List.filter_cons, ih]
      cases hpath : d.path with
      | none =>
          have hsaved : d.saved = d := by simp [Document.saved, hpath]
          simp [hsaved]
      | some p => simp [Document.saved_of_path hpath]

variable [FurtherCharsets] {σ : Type} {storage : Storage σ} {store : σ}
variable {s : Session} {ds : List Deed}
variable {count : Nat}

/-- All sources with changes are saved. -/
theorem Rooted.save_ok (h : Rooted ds s)
    (hok : (s.save storage store .sources).2.result = .ok count) :
    count = (s.sources.documents.filter Document.dirty).length ∧
      ∀ d ∈ (s.save storage store .sources).2.session.sources.documents, d.dirty = false := by
  obtain ⟨rfl, hsession⟩ := Session.save_ok hok
  refine ⟨?_, ?_⟩
  · exact congrArg List.length (List.filter_congr fun d hd => h.isPending_eq hd)
  · intro d hd
    rw [hsession, documents_sources_setDocuments] at hd
    obtain ⟨e, he, rfl⟩ := List.mem_map.mp hd
    obtain ⟨p, data, -, hread⟩ := h.readFrom he
    rw [Document.saved_of_path hread.path]

theorem save_targets_ok (hok : (s.save storage store .targets).2.result = .ok count) :
    (s.save storage store .targets).2.session.targets.documents.filter Document.dirty =
      s.targets.documents.filter fun d => d.dirty && d.path.isNone := by
  rw [(Session.save_ok hok).2, documents_targets_setDocuments]
  exact filter_dirty_saved _

theorem exportTargets_clean {dir : Path} {paths : List Path}
    (hok : (s.exportTargets storage store dir).2.result = .ok paths) :
    ∀ d ∈ (s.exportTargets storage store dir).2.session.targets.documents, d.dirty = false := by
  rw [(exportTargets_ok hok).2.2.2, documents_targets_setDocuments]
  intro d hd
  obtain ⟨e, -, rfl⟩ := List.mem_map.mp hd
  rfl

end Session

/-! ### Turns -/

namespace Turn

/-- A turn that can bring changes: a commit, or a set that replaces the targets. -/
def disturbs (t : Turn) : Bool :=
  match t.operation with
  | .commit .. | .replaceTargets .. => true
  | _ => false

/-- An export that went well. -/
def Exports (t : Turn) : Prop :=
  ∃ dir paths, t.operation = .exportTargets dir ∧ t.result = .ok (.paths paths)

/-- A save of the sources that went well. -/
def SavesSources (t : Turn) : Prop :=
  ∃ count, t.operation = .save .sources ∧ t.result = .ok (.count count)

theorem cleans_of_not_disturbs {t : Turn} (h : t.disturbs = false) {x : Deed}
    (hx : x ∈ t.deeds) : x.cleans = true := by
  refine cleans_of_mem ?_ ?_ hx
  · intro which name content hop
    simp [disturbs, hop] at h
  · intro targets wellFormed hop
    simp [disturbs, hop] at h

end Turn

/-- Since some turn of a kind nothing was disturbed. -/
def Run.Since {σ : Type} (r : Run σ) (kind : Turn → Prop) : Prop :=
  ∃ before t after, r.turns = before ++ t :: after ∧ kind t ∧ ∀ u ∈ after, u.disturbs = false

section

variable [FurtherCharsets] {σ : Type} {reader : Reader σ} {storage : Storage σ} {store store' : σ}
variable {s t : Session} {which : Shelf} {ds : List Deed}

/-- Deeds that clean keep a shelf clean. -/
theorem Course.clean (h : Course reader storage store s ds store' t) (hs : s.WellFormed)
    (hds : ∀ x ∈ ds, x.cleans = true) (hclean : ∀ d ∈ (s.shelf which).documents, d.dirty = false) :
    ∀ d ∈ (t.shelf which).documents, d.dirty = false := by
  intro d hd
  obtain ⟨slot, hslot⟩ := List.getElem?_of_mem hd
  have hlt : slot < (t.shelf which).keys.length :=
    (h.wellFormed hs which).length_eq ▸ (List.getElem?_eq_some_iff.mp hslot).1
  rcases h.stands hs hds ⟨List.getElem?_eq_getElem hlt, hslot⟩ with ⟨-, hdirty⟩ | ⟨-, hstands⟩
  · exact hdirty
  · exact hclean d (List.mem_of_getElem? hstands.2)

variable (reader storage)

theorem perform_exports {op : Operation} {p : σ × Step Operation.Result}
    (hp : op.perform reader storage store s = p)
    (h : Turn.Exports ⟨op, p.2.result, p.2.events⟩) :
    ∀ d ∈ (p.2.session.shelf .targets).documents, d.dirty = false := by
  obtain ⟨dir, paths, rfl, hresult⟩ := h
  subst hp
  have hok : (s.exportTargets storage store dir).2.result = .ok paths := by
    cases hexport : (s.exportTargets storage store dir).2.result with
    | error failure => simp [Operation.perform, Step.map, hexport, Except.map] at hresult
    | ok paths' => simpa [Operation.perform, Step.map, hexport, Except.map] using hresult
  exact Session.exportTargets_clean hok

theorem perform_savesSources {op : Operation} {p : σ × Step Operation.Result}
    (hp : op.perform reader storage store s = p) (hs : s.Rooted ds)
    (h : Turn.SavesSources ⟨op, p.2.result, p.2.events⟩) :
    ∀ d ∈ (p.2.session.shelf .sources).documents, d.dirty = false := by
  obtain ⟨count, rfl, hresult⟩ := h
  subst hp
  have hok : (s.save storage store .sources).2.result = .ok count := by
    cases hsave : (s.save storage store .sources).2.result with
    | error failure => simp [Operation.perform, Step.map, hsave, Except.map] at hresult
    | ok count' => simpa [Operation.perform, Step.map, hsave, Except.map] using hresult
  exact (hs.save_ok hok).2

/-- A shelf stays clean from a turn on that cleans it. -/
theorem run_since {kind : Turn → Prop} {ops : List Operation}
    (hkind : ∀ {past op r p}, run reader storage store .empty past = r →
      op.perform reader storage r.store r.session = p → kind ⟨op, p.2.result, p.2.events⟩ →
      ∀ d ∈ (p.2.session.shelf which).documents, d.dirty = false)
    (h : (run reader storage store .empty ops).Since kind) :
    ∀ d ∈ ((run reader storage store .empty ops).session.shelf which).documents,
      d.dirty = false := by
  obtain ⟨before, turn, after, hturns, hturn, hafter⟩ := h
  obtain ⟨past, op, rest, r, p, rfl, hr, -, hp, rfl, hrest⟩ := run_split reader storage hturns
  have hpast : r.session.WellFormed := hr ▸ run_wellFormed reader storage store past
  have hp' : p.2.session.WellFormed := by
    subst hp
    exact (perform_course reader storage op r.store r.session).wellFormed hpast
  have hcourse := run_course reader storage rest p.1 p.2.session
  have hcleans : ∀ x ∈ (run reader storage p.1 p.2.session rest).deeds, x.cleans = true := by
    intro x hx
    obtain ⟨u, hu, hxu⟩ := List.mem_flatMap.mp hx
    rw [hrest] at hu
    exact Turn.cleans_of_not_disturbs (hafter u hu) hxu
  rw [run_append reader storage past (op :: rest) store .empty hr,
    run_cons reader storage op rest r.store r.session hp]
  exact hcourse.clean hp' hcleans (hkind hr hp hturn)

/-- The sources of a reached session have different names, and each has the name, the path
and the charset of the file that was read last under its name. So a save of the sources
that goes well leaves no source with changes, one of the targets leaves those without a
path, and after an export and a save of the sources nothing has changes, until something is
committed or the targets are replaced. -/
theorem run_sources_rooted (store : σ) (ops : List Operation) :
    let r := run reader storage store .empty ops
    r.session.sources.names.Nodup ∧
    (∀ d ∈ r.session.sources.documents,
      (∃ p data, Deed.LastRead r.deeds p data ∧ d.ReadFrom p data) ∧
      (d.encoding = "utf-8" ∨ d.encoding = "windows-1252")) ∧
    (∀ {τ : Type} (storage' : Storage τ) (store' : τ) (count : Nat),
      let t := (r.session.save storage' store' .sources).2
      t.result = .ok count → count = (r.session.sources.documents.filter Document.dirty).length ∧
        ∀ d ∈ t.session.sources.documents, d.dirty = false) ∧
    (∀ {τ : Type} (storage' : Storage τ) (store' : τ) (count : Nat),
      let t := (r.session.save storage' store' .targets).2
      t.result = .ok count → t.session.targets.documents.filter Document.dirty =
        r.session.targets.documents.filter fun d => d.dirty && d.path.isNone) ∧
    (r.Since Turn.Exports → r.Since Turn.SavesSources → r.session.isDirty = false) := by
  intro r
  have hrooted : r.session.Rooted r.deeds := run_rooted reader storage store ops
  refine ⟨hrooted.names_nodup, ?_, fun _ _ _ => hrooted.save_ok,
    fun _ _ _ => Session.save_targets_ok, ?_⟩
  · intro d hd
    obtain ⟨p, data, hlast, hread⟩ := hrooted.readFrom hd
    refine ⟨⟨p, data, hlast, hread⟩, ?_⟩
    rw [hread.encoding]
    exact encoding_decode data
  · intro hexport hsave
    have htargets : ∀ d ∈ (r.session.shelf .targets).documents, d.dirty = false :=
      run_since reader storage (fun _ hp => perform_exports reader storage hp) hexport
    have hsources : ∀ d ∈ (r.session.shelf .sources).documents, d.dirty = false := by
      refine run_since reader storage (fun {past _ _ _} hr hp => ?_) hsave
      have hpast := run_rooted reader storage store past
      rw [hr] at hpast
      exact perform_savesSources reader storage hp hpast
    simp only [Session.isDirty, List.any_append, Bool.or_eq_false_iff, List.any_eq_false,
      Bool.not_eq_true]
    exact ⟨hsources, htargets⟩

end

attribute [local instance] FurtherCharsets.none in
/-- A source and a target that were edited, saved and exported. -/
theorem run_sources_rooted_clean :
    let files := Memory.ofFiles [(.ofText "in/a", [0xE9])]
    let echo : Translator := fun c => ⟨.targets c.sources, []⟩
    let ops : List Operation := [.load [.ofText "in/a"], .translate echo "go" "",
      .commit .sources "a" "x", .commit .targets "a" "y", .save .sources,
      .exportTargets (.ofText "out")]
    let r := run Memory.storage.reader Memory.storage files .empty ops
    r.Since Turn.Exports ∧ r.Since Turn.SavesSources ∧ r.session.isDirty = false ∧
      ∀ d ∈ r.session.sources.documents, d.encoding = "utf-8" ∨ d.encoding = "windows-1252" := by
  intro files echo ops r
  have hexport : r.Since Turn.Exports :=
    ⟨r.turns.take 5, r.turns[5], [], rfl,
      ⟨.ofText "out", [.ofText "out/a"], rfl, by decide +kernel⟩, by simp⟩
  have hsave : r.Since Turn.SavesSources :=
    ⟨r.turns.take 4, r.turns[4], [r.turns[5]], rfl, ⟨1, rfl, by decide +kernel⟩,
      fun u hu => by rw [List.mem_singleton.mp hu]; rfl⟩
  obtain ⟨-, hsources, -, -, hclean⟩ := run_sources_rooted Memory.storage.reader Memory.storage
    files ops
  exact ⟨hexport, hsave, hclean hexport hsave, fun d hd => (hsources d hd).2⟩

end SourceDesk
