import SourceDesk.Storage.Memory

/-! File systems that nobody else writes to: a file is what was written to its path last.
Reads and writes may be refused for any reason, and then nothing changes. -/
namespace SourceDesk

/-- A store where a file is known by the exact bytes of its path: by `write_ok` a write leaves
every other path as it was, and `a//b` is another path than `a/b`. Stores that know files by the
components of their paths, and disks, where such paths lead to one file, are none of these. -/
structure FileSystem (σ : Type) where
  reader : Reader σ
  storage : Storage σ
  /-- What stands at a path. -/
  file? : σ → Path → Option Bytes
  read_ok : ∀ {store store' p data}, reader store p = (store', .ok data) →
    file? store p = some data ∧ file? store' = file? store
  read_error : ∀ {store store' p reason}, reader store p = (store', .error reason) →
    file? store' = file? store
  write_ok : ∀ {store store' p data}, storage.write store p data = (store', .ok ()) →
    file? store' p = some data ∧ ∀ q, q ≠ p → file? store' q = file? store q
  write_error : ∀ {store store' p data reason},
    storage.write store p data = (store', .error reason) → file? store' = file? store

/-! ### Lists of pairs -/

section

variable {κ α : Type} [BEq κ] [LawfulBEq κ] [DecidableEq κ] {pairs : List (κ × α)} {p q : κ} {a : α}

theorem lookup_cons (r : κ × α) (pairs : List (κ × α)) (q : κ) :
    (r :: pairs).lookup q = if q = r.1 then some r.2 else pairs.lookup q := by
  rw [List.lookup_cons]
  by_cases h : q = r.1
  · simp [h]
  · have hb : (q == r.1) = false := by simp [h]
    simp [hb, h]

theorem lookup_map_of_ne (h : q ≠ p) :
    (pairs.map fun r => if r.1 = p then (p, a) else r).lookup q = pairs.lookup q := by
  induction pairs with
  | nil => rfl
  | cons r pairs ih =>
      rw [List.map_cons, lookup_cons, lookup_cons, ih]
      by_cases hr : r.1 = p
      · simp [hr, h]
      · simp [hr]

theorem lookup_map_self (h : (pairs.lookup p).isSome) :
    (pairs.map fun r => if r.1 = p then (p, a) else r).lookup p = some a := by
  induction pairs with
  | nil => simp at h
  | cons r pairs ih =>
      rw [List.map_cons, lookup_cons]
      by_cases hr : r.1 = p
      · simp [hr]
      · rw [lookup_cons, if_neg (Ne.symm hr)] at h
        simp [hr, Ne.symm hr, ih h]

theorem lookup_concat (h : pairs.lookup p = none) :
    (pairs ++ [(p, a)]).lookup q = if q = p then some a else pairs.lookup q := by
  induction pairs with
  | nil => simp [lookup_cons]
  | cons r pairs ih =>
      rw [lookup_cons] at h
      split at h
      · cases h
      · rename_i hr
        rw [List.cons_append, lookup_cons, lookup_cons, ih h]
        by_cases hq : q = r.1
        · simp [hq, Ne.symm hr]
        · simp [hq]

end

namespace Memory

variable {α : Type} {p : Path}

/-- What is assigned to a path is found there, and nothing else is affected. -/
theorem lookup_assign (pairs : List (Path × α)) (p q : Path) (a : α) :
    (assign pairs p a).lookup q = if q = p then some a else pairs.lookup q := by
  unfold assign
  cases hp : pairs.lookup p with
  | none => simpa using lookup_concat hp
  | some old =>
      have hsome : (pairs.lookup p).isSome := by simp [hp]
      by_cases hq : q = p
      · subst hq
        simp [lookup_map_self hsome]
      · simp [hq, lookup_map_of_ne hq]

theorem read_eq_ok {m : Memory} {data : Bytes} (h : m.read p = .ok data) :
    m.files.lookup p = some data := by
  unfold read at h
  split at h
  · cases h
  · rename_i hfile
    rw [hfile]
    exact congrArg some (Except.ok.inj h)
  · cases h

/-- Memory is a file system. -/
def fileSystem : FileSystem Memory where
  reader := Memory.storage.reader
  storage := Memory.storage
  file? m p := m.files.lookup p
  read_ok h := by
    obtain ⟨rfl, hread⟩ := Prod.mk.inj h
    exact ⟨read_eq_ok hread, rfl⟩
  read_error h := by
    obtain ⟨rfl, -⟩ := Prod.mk.inj h
    rfl
  write_ok {m m' p data} h := by
    simp only [storage, write] at h
    split at h
    · cases h
    · obtain ⟨rfl, -⟩ := Prod.mk.inj h
      simp only [put, lookup_assign]
      exact ⟨by simp, fun q hq => by simp [hq]⟩
  write_error {m m' p data reason} h := by
    simp only [storage, write] at h
    split at h
    · obtain ⟨rfl, -⟩ := Prod.mk.inj h
      rfl
    · cases h

end Memory

end SourceDesk
