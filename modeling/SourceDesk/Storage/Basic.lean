import SourceDesk.Path

/-!
Storage, as seen by those who read and write through it: any kind of state, with a
way to read a path and a way to write one, each of which may refuse with a reason.
-/

namespace SourceDesk

structure Storage (σ : Type) where
  read : σ → Path → Except String Bytes
  write : σ → Path → Bytes → σ × Except String Unit

/-- A way to read paths whose answers may hang on all that was asked of it before. -/
abbrev Reader (σ : Type) := σ → Path → σ × Except String Bytes

/-- Storage is not changed by being read. -/
def Storage.reader {σ : Type} (s : Storage σ) : Reader σ := fun store p => (store, s.read store p)

end SourceDesk
