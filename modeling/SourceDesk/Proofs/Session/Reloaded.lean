import SourceDesk.Proofs.Session.ExportedFiles
import SourceDesk.Proofs.Session.Location
import SourceDesk.Proofs.Text.Charset

/-! Loading what was exported. Targets of a translation are written in UTF-8, whatever was
done to them since, each below the directory under its name. What is loaded from there has
the last part of that name, and the text that was written. -/
namespace SourceDesk

/-! ### Charsets of targets -/

/-- Whenever the targets were replaced there was an attempt to translate after that. -/
def Deed.Translated (ds : List Deed) : Prop :=
  ∀ before targets after, ds = before ++ .replaced targets :: after →
    ∃ x ∈ after, x.isAttempt = true

theorem Deed.Translated.of_concat {ds : List Deed} {x : Deed} (h : Translated (ds ++ [x]))
    (hx : x.isAttempt = false) : Translated ds := by
  rintro before targets after rfl
  obtain ⟨y, hy, hattempt⟩ := h before targets (after ++ [x]) (by simp)
  rcases List.mem_append.mp hy with hy | hy
  · exact ⟨y, hy, hattempt⟩
  · rw [List.mem_singleton.mp hy, hx] at hattempt
    cases hattempt

theorem Deed.not_translated_replaced (ds : List Deed) (targets : DocumentSet) :
    ¬Translated (ds ++ [.replaced targets]) := by
  intro h
  obtain ⟨x, hx, -⟩ := h ds targets [] rfl
  cases hx

theorem Deed.translated_of_not_mem {ds : List Deed} (h : ∀ targets, .replaced targets ∉ ds) :
    Translated ds := by
  rintro before targets after rfl
  exact absurd (by simp) (h targets)

theorem forall_mem_modify {α : Type} {P : α → Prop} {f : α → α} {l : List α} (i : Nat)
    (hf : ∀ a, P a → P (f a)) (h : ∀ a ∈ l, P a) : ∀ a ∈ l.modify i f, P a := by
  intro a ha
  obtain ⟨j, hj⟩ := List.getElem?_of_mem ha
  rw [List.getElem?_modify] at hj
  obtain ⟨b, hb, rfl⟩ := Option.map_eq_some_iff.mp hj
  have hmem := h b (List.mem_of_getElem? hb)
  split
  · exact hf b hmem
  · exact hmem

namespace Session

/-- All targets are to be written in UTF-8. -/
def TargetsInUtf8 (s : Session) : Prop := ∀ d ∈ s.targets.documents, d.encoding = "utf-8"

theorem targetsInUtf8_install (s : Session) (o : Outcome) : (s.install o).TargetsInUtf8 := by
  intro d hd
  obtain ⟨t, rfl⟩ := generated_of_mem_install hd
  rfl

theorem TargetsInUtf8.commit {s : Session} (h : s.TargetsInUtf8) (name content : String) :
    (s.after (.committed .targets name content)).TargetsInUtf8 := by
  show ∀ d ∈ (s.targets.modify name fun d => d.commit content).documents, d.encoding = "utf-8"
  unfold DocumentSet.modify
  split
  · refine forall_mem_modify _ (fun d hd => ?_) h
    unfold Document.commit
    split <;> exact hd
  · exact h

theorem targetsInUtf8_after {ds : List Deed} {s : Session} {x : Deed}
    (h : Deed.Translated ds → s.TargetsInUtf8) (hx : Deed.Translated (ds ++ [x])) :
    (s.after x).TargetsInUtf8 := by
  cases x with
  | loaded p data => exact h (hx.of_concat rfl)
  | committed which name content =>
      have hs := h (hx.of_concat rfl)
      cases which with
      | sources => exact hs
      | targets => exact hs.commit name content
  | written seat p data =>
      have hs := h (hx.of_concat rfl)
      obtain ⟨which, slot⟩ := seat
      cases which with
      | sources => exact hs
      | targets => exact forall_mem_modify slot (fun _ hd => hd) hs
  | replaced targets => exact absurd hx (Deed.not_translated_replaced ds targets)
  | translated language namespaceHint o => exact targetsInUtf8_install _ o
  | translatedAgain catalog o => exact targetsInUtf8_install _ o

theorem run_targetsInUtf8 [FurtherCharsets] {σ : Type} (reader : Reader σ) (storage : Storage σ)
    (store : σ) (ops : List Operation)
    (h : Deed.Translated (run reader storage store .empty ops).deeds) :
    (run reader storage store .empty ops).session.TargetsInUtf8 := by
  have hempty : Session.empty.TargetsInUtf8 := fun d hd => by cases hd
  exact run_induction (motive := fun ds s => Deed.Translated ds → s.TargetsInUtf8) reader storage
    (fun _ => hempty) (fun _ _ _ _ => targetsInUtf8_after) store ops h

/-! ### Names -/

/-- The last part of a name. -/
def lastPart (name : String) : String := .ofList ((route name).getLast?.getD [])

/-- What is exported under a name is called after the last part of it. -/
theorem documentName_exportPath {d : Document} (h : isExportable d = true) (dir : Path) :
    (exportPath dir d).documentName = lastPart d.name := by
  have hne : (Path.ofText d.name).names ≠ [] := (Path.components_of_plain h).2.1
  have hcomponents := Path.components_join_of_plain dir h
  rw [names_ofText] at hne hcomponents
  have hroute : route d.name ≠ [] := by
    rintro hnil
    simp [hnil] at hne
  obtain ⟨parts, part, hpart⟩ := List.eq_nil_or_concat (route d.name) |>.resolve_left hroute
  have hfile : (exportPath dir d).fileName? = some (Utf8.encode (.ofList part)) := by
    rw [Path.fileName?, exportPath, hcomponents, hpart]
    simp
  rw [Path.documentName, hfile, lastPart, hpart]
  simp [Utf8.decodeLossy_encode]

/-! ### Loading files -/

section

variable {σ : Type} {reader : Reader σ} {store : σ} {files : List (Path × Bytes)}

/-- Loading files that are all there: the documents come in order, and nothing fails. -/
theorem loadEach_of_read (h : ∀ f ∈ files, reader store f.1 = (store, .ok f.2))
    (sources : DocumentSet) :
    let loading := loadEach reader store (files.map Prod.fst) sources
    loading.sources = (files.map fun f => Document.loaded f.1 (.decode f.2)).foldl
        DocumentSet.insert sources ∧
      loading.names = files.map (fun f => f.1.documentName) ∧ loading.failure = none := by
  induction files generalizing sources with
  | nil => exact ⟨rfl, rfl, rfl⟩
  | cons f files ih =>
      obtain ⟨hf, hfiles⟩ := List.forall_mem_cons.mp h
      obtain ⟨hsources, hnames, hfailure⟩ :=
        ih hfiles (sources.insert (.loaded f.1 (.decode f.2)))
      simp only [List.map_cons, loadEach, hf]
      refine ⟨hsources, ?_, hfailure⟩
      rw [← hnames]
      rfl

/-- Files with different names, loaded into an empty session. -/
theorem loadFrom_of_read (h : ∀ f ∈ files, reader store f.1 = (store, .ok f.2))
    (hnames : (files.map fun f => f.1.documentName).Nodup) :
    let t := (Session.empty.loadFrom reader store (files.map Prod.fst)).2
    t.result = .ok (files.map fun f => f.1.documentName) ∧
      t.session.sources.documents = files.map fun f => .loaded f.1 (.decode f.2) := by
  obtain ⟨hsources, hloaded, hfailure⟩ := loadEach_of_read h DocumentSet.empty
  have hdistinct : ((files.map fun f => Document.loaded f.1 (.decode f.2)).map
      Document.name).Nodup := by
    rw [List.map_map]
    exact hnames
  refine ⟨?_, ?_⟩
  · simp only [loadFrom, empty, hfailure, hloaded]
  · rw [← DocumentSet.documents_ofList hdistinct]
    exact congrArg DocumentSet.documents hsources

end

/-! ### There and back -/

section

variable [FurtherCharsets] {σ : Type} {tree : FileTree σ} {store : σ} {dir : Path} {s : Session}
variable {paths : List Path}

/-- What an export that went through leaves at the path of a target. -/
theorem file?_of_exported (hutf8 : s.TargetsInUtf8)
    (hparts : (s.targets.documents.map fun d => lastPart d.name).Nodup)
    (h : (s.exportTargets tree.storage store dir).2.result = .ok paths) {d : Document}
    (hd : d ∈ s.targets.documents) :
    tree.file? (s.exportTargets tree.storage store dir).1 (exportPath dir d) =
      some (Utf8.encode d.content) := by
  obtain ⟨hplain, -, ⟨ws, hws, hwrites⟩, -⟩ := exportTargets_ok h
  obtain ⟨before, after, hdocs⟩ := List.append_of_mem hd
  have hafter : ∀ e ∈ after, route e.name ≠ route d.name := by
    intro e he hroute
    rw [hdocs, List.map_append, List.map_cons, List.nodup_append] at hparts
    refine (List.nodup_cons.mp hparts.2.1).1 (List.mem_map.mpr ⟨e, he, ?_⟩)
    rw [lastPart, lastPart, hroute]
  obtain ⟨data, henc, hfile⟩ := file?_of_writes hws hwrites hplain hdocs hafter
  rw [hutf8 d hd, encodeText?_utf8] at henc
  rw [hfile, Option.some.inj henc]

/-- What was exported, loaded into an empty session. -/
theorem exportTargets_reloaded (tree : FileTree σ) (hutf8 : s.TargetsInUtf8)
    (hparts : (s.targets.documents.map fun d => lastPart d.name).Nodup)
    (hmark : ∀ d ∈ s.targets.documents, d.content.toList.head? ≠ some markChar)
    (h : (s.exportTargets tree.storage store dir).2.result = .ok paths)
    (hread : ∀ p ∈ paths, ∀ data,
      tree.file? (s.exportTargets tree.storage store dir).1 p = some data →
      tree.storage.read (s.exportTargets tree.storage store dir).1 p = .ok data) :
    let t := (Session.empty.loadFrom tree.storage.reader
      (s.exportTargets tree.storage store dir).1 paths).2
    t.result = .ok (s.targets.documents.map fun d => lastPart d.name) ∧
      t.session.sources.documents = s.targets.documents.map fun d =>
        ⟨lastPart d.name, some (exportPath dir d), d.content, "utf-8", false⟩ := by
  obtain ⟨hplain, rfl, -, -⟩ := exportTargets_ok h
  have hfound := fun d hd => file?_of_exported (d := d) hutf8 hparts h hd
  generalize (s.exportTargets tree.storage store dir).1 = files at hread hfound ⊢
  -- the files that are there: a path and its bytes for each target
  let file (d : Document) : Path × Bytes := (exportPath dir d, Utf8.encode d.content)
  have hfiles : ∀ f ∈ s.targets.documents.map file,
      tree.storage.reader files f.1 = (files, .ok f.2) := by
    intro f hf
    obtain ⟨d, hd, rfl⟩ := List.mem_map.mp hf
    rw [Storage.reader, hread _ (List.mem_map_of_mem hd) _ (hfound d hd)]
  have hnames : (s.targets.documents.map file).map (fun f => f.1.documentName) =
      s.targets.documents.map fun d => lastPart d.name := by
    rw [List.map_map]
    exact List.map_congr_left fun d hd => documentName_exportPath (hplain d hd) dir
  have hpaths : (s.targets.documents.map file).map Prod.fst =
      s.targets.documents.map (exportPath dir) := List.map_map
  obtain ⟨hresult, hsources⟩ := loadFrom_of_read hfiles (by rwa [hnames])
  rw [hpaths] at hresult hsources
  refine ⟨by rw [hresult, hnames], ?_⟩
  rw [hsources, List.map_map]
  refine List.map_congr_left fun d hd => ?_
  simp only [Function.comp_apply, file, Document.loaded, decode_encode_of_not_mark (hmark d hd),
    documentName_exportPath (hplain d hd) dir]

end

end Session

/-! ### Memory -/

/-- What is written has no part in what is denied to readers. -/
theorem Memory.unreadable_of_writes {m m' : Memory} {ws : List (Path × Bytes)}
    (h : Memory.storage.Writes m ws m') : m'.unreadable = m.unreadable := by
  induction h with
  | nil => rfl
  | @cons m next _ p data _ hw _ ih =>
      rw [ih]
      simp only [storage, write] at hw
      split at hw
      · cases hw
      · obtain rfl := (Prod.mk.inj hw).1
        rfl

/-- Targets that came from a translation, edited or not, with different last parts of their
names and no text that starts with the mark: once they are exported, what is loaded from the
reported paths are sources of these names with the very texts of the targets, in order, and
the targets themselves are clean and have these paths. -/
theorem run_exported_reloaded [FurtherCharsets] {σ : Type} (reader : Reader σ)
    (storage : Storage σ) (store : σ) (ops : List Operation) {r : Run σ}
    (hr : run reader storage store .empty ops = r)
    (htranslated : Deed.Translated r.deeds)
    (hparts : (r.session.targets.documents.map fun d => Session.lastPart d.name).Nodup)
    (hmark : ∀ d ∈ r.session.targets.documents, d.content.toList.head? ≠ some markChar)
    (files : Memory) (dir : Path) {paths : List Path}
    (hexport : (r.session.exportTargets Memory.storage files dir).2.result = .ok paths)
    (hreadable : ∀ p ∈ paths, files.unreadable.lookup p = none) :
    let docs := r.session.targets.documents
    let t := r.session.exportTargets Memory.storage files dir
    let loaded := (Session.empty.loadFrom Memory.storage.reader t.1 paths).2
    paths = docs.map (fun d => dir.join (.ofText d.name)) ∧
    loaded.result = .ok (docs.map fun d => Session.lastPart d.name) ∧
    loaded.session.sources.documents = docs.map (fun d =>
      ⟨Session.lastPart d.name, some (dir.join (.ofText d.name)), d.content, "utf-8", false⟩) ∧
    t.2.session = r.session.setDocuments .targets
      (docs.map fun d => d.stored (dir.join (.ofText d.name))) := by
  intro docs t loaded
  have hutf8 : r.session.TargetsInUtf8 := by
    subst hr
    exact Session.run_targetsInUtf8 reader storage store ops htranslated
  obtain ⟨-, hpaths, ⟨ws, -, hwrites⟩, hsession⟩ := Session.exportTargets_ok hexport
  have hread : ∀ p ∈ paths, ∀ data, t.1.files.lookup p = some data → t.1.read p = .ok data := by
    intro p hp data hfile
    have hdenied : t.1.unreadable.lookup p = none := by
      rw [Memory.unreadable_of_writes hwrites]
      exact hreadable p hp
    simp [Memory.read, hdenied, hfile]
  obtain ⟨hresult, hsources⟩ :=
    Session.exportTargets_reloaded Memory.fileTree hutf8 hparts hmark hexport hread
  exact ⟨hpaths, hresult, hsources, hsession⟩

attribute [local instance] FurtherCharsets.none in
/-- A name with a directory and a slash too many, and an edited target, below a directory with
a slash at its end. -/
theorem run_exported_reloaded_nested :
    let translator : Translator := fun _ => ⟨.targets [⟨"x//a", "1"⟩, ⟨"b", "2"⟩], []⟩
    let ops : List Operation := [.translate translator "go" "", .commit .targets "b" "é"]
    let r := run Memory.storage.reader Memory.storage (.ofFiles []) .empty ops
    let t := r.session.exportTargets Memory.storage (.ofFiles []) (.ofText "out/")
    let loaded := (Session.empty.loadFrom Memory.storage.reader t.1
      [.ofText "out/x//a", .ofText "out/b"]).2
    t.2.result = .ok [.ofText "out/x//a", .ofText "out/b"] ∧
      loaded.result = .ok ["a", "b"] ∧ loaded.session.sources.documents =
        [⟨"a", some (.ofText "out/x//a"), "1", "utf-8", false⟩,
         ⟨"b", some (.ofText "out/b"), "é", "utf-8", false⟩] := by
  intro translator ops r t loaded
  have hexport : t.2.result = .ok [.ofText "out/x//a", .ofText "out/b"] := by decide +kernel
  have htranslated : Deed.Translated r.deeds := by
    have hdeeds : r.deeds = [.translated "go" "" (.success [⟨"x//a", "1"⟩, ⟨"b", "2"⟩]),
      .committed .targets "b" "é"] := rfl
    exact Deed.translated_of_not_mem (by simp [hdeeds])
  obtain ⟨-, hresult, hsources, -⟩ := run_exported_reloaded Memory.storage.reader Memory.storage
    (.ofFiles []) ops rfl htranslated (by decide +kernel) (by decide +kernel) (.ofFiles [])
    (.ofText "out/") hexport (by decide +kernel)
  exact ⟨hexport, hresult.trans (by decide +kernel), hsources.trans (by decide +kernel)⟩

end SourceDesk
