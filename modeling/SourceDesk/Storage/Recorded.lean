import SourceDesk.Storage.Basic

/-!
Storage that keeps a record of what it was asked to write, whatever storage lies below.
-/

namespace SourceDesk

/-- A call to write: what was to be written where, and why it was refused, if it was. -/
structure WriteCall where
  path : Path
  data : Bytes
  refusal : Option String
  deriving DecidableEq, Repr

/-- A store, and the calls to write to it, in order. -/
structure Recorded (σ : Type) where
  store : σ
  calls : List WriteCall
  deriving Repr

/-- The same storage with a record. -/
def Storage.recorded {σ : Type} (s : Storage σ) : Storage (Recorded σ) where
  read r p := s.read r.store p
  write r p data :=
    match s.write r.store p data with
    | (store, .ok ()) => (⟨store, r.calls ++ [⟨p, data, none⟩]⟩, .ok ())
    | (store, .error reason) => (⟨store, r.calls ++ [⟨p, data, some reason⟩]⟩, .error reason)

/-- What was written, in order. -/
def Recorded.written {σ : Type} (r : Recorded σ) : List (Path × Bytes) :=
  (r.calls.filter fun c => c.refusal.isNone).map fun c => (c.path, c.data)

end SourceDesk
