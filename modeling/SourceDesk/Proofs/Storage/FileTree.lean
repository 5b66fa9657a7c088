import SourceDesk.Proofs.Path
import SourceDesk.Proofs.Storage.FileSystem
import SourceDesk.Proofs.Storage.Writes

/-! File trees: storage in which two paths are two files when they part on the way down from
one directory. Nothing is said of paths that come from elsewhere, for these may lead to the
same place, and nothing of paths that differ in their spelling alone. -/
namespace SourceDesk

/-- Two paths that lead from one directory along other names. -/
def Path.Beside (p q : Path) : Prop :=
  ∃ dir name other : Path, p = dir.join name ∧ q = dir.join other ∧
    name.isPlainRelative = true ∧ other.isPlainRelative = true ∧ name.names ≠ other.names

theorem Path.Beside.ne {p q : Path} (h : p.Beside q) : p ≠ q := by
  obtain ⟨dir, name, other, rfl, rfl, hname, hother, hne⟩ := h
  intro heq
  exact hne ((components_join_eq_iff dir hname hother).mp (congrArg components heq))

structure FileTree (σ : Type) where
  storage : Storage σ
  /-- What stands at a path. -/
  file? : σ → Path → Option Bytes
  write_ok : ∀ {store store' p data}, storage.write store p data = (store', .ok ()) →
    file? store' p = some data
  write_beside : ∀ {store store' p q data kept},
    storage.write store p data = (store', .ok ()) → p.Beside q →
    file? store q = some kept → file? store' q = some kept

/-- Memory tells files apart by all of their paths' bytes. -/
def Memory.fileTree : FileTree Memory where
  storage := Memory.storage
  file? m p := m.files.lookup p
  write_ok h := (fileSystem.write_ok h).1
  write_beside h hbeside hkept := by
    rw [← hkept]
    exact (fileSystem.write_ok h).2 _ hbeside.ne.symm

variable {σ : Type} {storage : Storage σ} {tree : FileTree σ} {store store' : σ}
variable {p : Path} {data : Bytes} {before after ws : List (Path × Bytes)}

theorem Storage.Writes.split (h : storage.Writes store (before ++ after) store') :
    ∃ mid, storage.Writes store before mid ∧ storage.Writes mid after store' := by
  induction before generalizing store with
  | nil => exact ⟨store, .nil, h⟩
  | cons w before ih =>
      cases h with
      | cons hw hrest =>
          obtain ⟨mid, hbefore, hafter⟩ := ih hrest
          exact ⟨mid, .cons hw hbefore, hafter⟩

theorem FileTree.writes_beside (h : tree.storage.Writes store ws store')
    (hws : ∀ w ∈ ws, w.1.Beside p) (hp : tree.file? store p = some data) :
    tree.file? store' p = some data := by
  induction h with
  | nil => exact hp
  | cons hw _ ih =>
      refine ih (fun w hmem => hws w (by simp [hmem])) ?_
      exact tree.write_beside hw (hws _ List.mem_cons_self) hp

/-- What is written somewhere is there in the end, if whatever is written later goes
beside it. -/
theorem FileTree.writes_file (h : tree.storage.Writes store (before ++ (p, data) :: after) store')
    (hafter : ∀ w ∈ after, w.1.Beside p) : tree.file? store' p = some data := by
  obtain ⟨mid, -, hrest⟩ := h.split
  cases hrest with
  | cons hw hlater => exact tree.writes_beside hlater hafter (tree.write_ok hw)

end SourceDesk
