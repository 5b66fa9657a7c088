import SourceDesk.Proofs.Session.Export
import SourceDesk.Proofs.Storage.Disk
import SourceDesk.Session.Attempt

/-! The files that an export makes. Targets have different names, but names are not places:
repeated slashes and dots between them do not count on the way down. What is written stays
what it is, up to the next target with a name that leads the same way. -/
namespace SourceDesk.Session

variable {σ : Type} {tree : FileTree σ} {store : σ} {dir : Path} {docs : List Document}

/-! ### Ways of names -/

/-- The parts that a name leads along: what stands between its slashes and is neither
nothing nor a dot. -/
def route (name : String) : List (List Char) :=
  (name.toList.splitOn '/').filter fun part => part ≠ [] ∧ part ≠ ['.']

theorem names_ofText (name : String) :
    (Path.ofText name).names = (route name).map fun part => Utf8.encode (.ofList part) := by
  rw [Path.names, Path.segments_ofText, List.filter_map, route]
  congr 1
  refine List.filter_congr fun part _ => ?_
  have hnil : Utf8.encode (.ofList part) = [] ↔ part = [] :=
    ⟨Path.eq_of_encode_ofList part [], by rintro rfl; rfl⟩
  have hdot : Utf8.encode (.ofList part) = Path.dot ↔ part = ['.'] :=
    ⟨Path.eq_of_encode_ofList part ['.'], by rintro rfl; rfl⟩
  simp [hnil, hdot]

theorem names_ofText_eq_iff (name other : String) :
    (Path.ofText name).names = (Path.ofText other).names ↔ route name = route other := by
  rw [names_ofText, names_ofText]
  exact (List.map_injective_iff.mpr Path.eq_of_encode_ofList).eq_iff

/-- Two names lead from a directory to one place when they lead the same way. -/
theorem same_exportPath_iff {d e : Document} (hd : isExportable d = true)
    (he : isExportable e = true) :
    (exportPath dir d).same (exportPath dir e) = true ↔ route d.name = route e.name := by
  rw [Path.same, beq_iff_eq, exportPath, exportPath, Path.components_join_eq_iff dir hd he,
    names_ofText_eq_iff]

/-! ### Contents -/

section

variable [FurtherCharsets]

/-- The bytes of a target are found at its path, if every later target goes elsewhere. -/
theorem file?_of_writes {ws : List (Path × Bytes)} {store' : σ}
    (hws : docs.map (exportWrite? dir) = ws.map some) (h : tree.storage.Writes store ws store')
    (hplain : ∀ d ∈ docs, isExportable d = true) {before after : List Document} {d : Document}
    (hdocs : docs = before ++ d :: after) (hafter : ∀ e ∈ after, route e.name ≠ route d.name) :
    ∃ data, encodeText? d.content d.encoding = some data ∧
      tree.file? store' (exportPath dir d) = some data := by
  subst hdocs
  rw [List.map_append, List.map_cons] at hws
  obtain ⟨first, rest, rfl, -, hrest⟩ := List.map_eq_append_iff.mp hws.symm
  obtain ⟨w, later, rfl, hw, hlater⟩ := List.map_eq_cons_iff.mp hrest
  obtain ⟨data, hdata, rfl⟩ := Option.map_eq_some_iff.mp hw.symm
  refine ⟨data, hdata, tree.writes_file h fun w hwmem => ?_⟩
  -- a later write is that of a later target, which goes another way down
  have hmem : some w ∈ after.map (exportWrite? dir) := hlater ▸ List.mem_map_of_mem hwmem
  obtain ⟨e, he, hwrite⟩ := List.mem_map.mp hmem
  obtain ⟨other, -, rfl⟩ := Option.map_eq_some_iff.mp hwrite
  refine ⟨dir, .ofText e.name, .ofText d.name, rfl, rfl, hplain e (by simp [he]),
    hplain d (by simp), ?_⟩
  exact fun heq => hafter e he ((names_ofText_eq_iff _ _).mp heq)

/-- An export that goes through has a path for every target, in order. Two of the paths are
one place when the names lead the same way, and only then; and each target is found at its
path, unless the name of a later one leads the same way. -/
theorem exportTargets_separate (s : Session) (dir : Path) (tree : FileTree σ) (store : σ)
    {paths : List Path} (h : (s.exportTargets tree.storage store dir).2.result = .ok paths) :
    paths = s.targets.documents.map (fun d => dir.join (.ofText d.name)) ∧
    (∀ d ∈ s.targets.documents, ∀ e ∈ s.targets.documents,
      (dir.join (.ofText d.name)).same (dir.join (.ofText e.name)) = true ↔
        route d.name = route e.name) ∧
    ∀ before d after, s.targets.documents = before ++ d :: after →
      (∀ e ∈ after, route e.name ≠ route d.name) →
      ∃ data, encodeText? d.content d.encoding = some data ∧
        tree.file? (s.exportTargets tree.storage store dir).1 (dir.join (.ofText d.name)) =
          some data := by
  rcases exportTargets_cases tree.storage dir s store rfl with
    ⟨_, _, _, -, -, -, -, -, hresult⟩ |
    ⟨hin, saving, before, after, ws, mid, hexported, hstore, -, hresult⟩
  · rw [hresult] at h
    cases h
  · have hfailure : saving.failure = none := by
      cases hfailure : saving.failure with
      | none => rfl
      | some failure => simp [hresult, hfailure] at h
    obtain ⟨hbefore, hmid⟩ := hexported.complete hfailure
    rw [hbefore, hmid] at hexported
    have hplain : ∀ d ∈ s.targets.documents, isExportable d = true := fun d hd =>
      isExportable_iff.mpr (hin d hd)
    refine ⟨?_, ?_, ?_⟩
    · rw [hresult, hfailure] at h
      rw [← Except.ok.inj h, hexported.written_eq]
      rfl
    · exact fun d hd e he => same_exportPath_iff (hplain d hd) (hplain e he)
    · intro before d after hdocs hafter
      rw [hstore]
      exact file?_of_writes hexported.writes_eq hexported.writes hplain hdocs hafter

end

/-- A session with the targets of a translation. -/
def translated (texts : List NamedText) : Session :=
  (Session.empty.translate (fun _ => ⟨.targets texts, []⟩) "go" "").session

attribute [local instance] FurtherCharsets.none in
/-- On a disk, with a dot and a slash too many. -/
theorem exportTargets_separate_spelled :
    let s := translated [⟨"a/./b", "1"⟩, ⟨"a//c", "2"⟩]
    let t := s.exportTargets Disk.fileTree.storage ⟨[], []⟩ (.ofText "out/")
    let first := Document.generated ⟨"a/./b", "1"⟩
    t.2.result = .ok [.ofText "out/a/./b", .ofText "out/a//c"] ∧
      ∃ data, encodeText? first.content first.encoding = some data ∧
        Disk.fileTree.file? t.1 ((Path.ofText "out/").join (.ofText first.name)) = some data := by
  intro s t first
  have hresult : t.2.result = .ok [.ofText "out/a/./b", .ofText "out/a//c"] := by decide +kernel
  have hdocs : s.targets.documents = [] ++ first :: [.generated ⟨"a//c", "2"⟩] := by decide +kernel
  have hroute : ∀ e ∈ [Document.generated ⟨"a//c", "2"⟩], route e.name ≠ route first.name := by
    decide +kernel
  exact ⟨hresult, (exportTargets_separate s _ Disk.fileTree _ hresult).2.2 [] first _ hdocs hroute⟩

attribute [local instance] FurtherCharsets.none in
/-- Two names that lead the same way: both paths are reported, and one file is left. -/
theorem exportTargets_shared :
    let s := translated [⟨"a/b", "1"⟩, ⟨"a//b", "2"⟩]
    let t := s.exportTargets Disk.storage ⟨[], []⟩ (.ofText "out")
    s.targets.names.Nodup ∧
    t.2.result = .ok [.ofText "out/a/b", .ofText "out/a//b"] ∧
    (Path.ofText "out/a/b").same (.ofText "out/a//b") = true ∧
    s.targets.documents.map Document.content = ["1", "2"] ∧
    t.1.readFile (.ofText "out/a/b") = .ok (Utf8.encode "2") ∧
    t.1.readFile (.ofText "out/a//b") = .ok (Utf8.encode "2") := by
  decide +kernel

end SourceDesk.Session
