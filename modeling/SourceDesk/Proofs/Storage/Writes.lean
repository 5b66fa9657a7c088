import SourceDesk.Storage.Recorded

/-! Writes in a row, and storage that records them. A record holds every call in order, the
refused ones with their reasons, and changes nothing of what the storage below does. -/
namespace SourceDesk

variable {σ : Type}

/-- Writes that went well one after the other, and the stores before and after them. -/
inductive Storage.Writes (storage : Storage σ) : σ → List (Path × Bytes) → σ → Prop
  | nil {store} : Writes storage store [] store
  | cons {store store' store'' p data ws} : storage.write store p data = (store', .ok ()) →
    Writes storage store' ws store'' → Writes storage store ((p, data) :: ws) store''

/-- The call of a write that went well. -/
def WriteCall.done (w : Path × Bytes) : WriteCall := ⟨w.1, w.2, none⟩

variable {storage : Storage σ} {r r' : Recorded σ} {p : Path} {data : Bytes} {reason : String}

theorem Storage.write_recorded_ok (h : storage.recorded.write r p data = (r', .ok ())) :
    storage.write r.store p data = (r'.store, .ok ()) ∧ r'.calls = r.calls ++ [⟨p, data, none⟩] := by
  simp only [recorded] at h
  rcases hw : storage.write r.store p data with ⟨store, refusal | ⟨⟩⟩
  · simp [hw] at h
  · simp only [hw, Prod.mk.injEq] at h
    obtain ⟨rfl, -⟩ := h
    exact ⟨rfl, rfl⟩

theorem Storage.write_recorded_error (h : storage.recorded.write r p data = (r', .error reason)) :
    storage.write r.store p data = (r'.store, .error reason) ∧
      r'.calls = r.calls ++ [⟨p, data, some reason⟩] := by
  simp only [recorded] at h
  rcases hw : storage.write r.store p data with ⟨store, refusal | ⟨⟩⟩
  · simp only [hw, Prod.mk.injEq, Except.error.injEq] at h
    obtain ⟨rfl, rfl⟩ := h
    exact ⟨rfl, rfl⟩
  · simp [hw] at h

theorem Storage.Writes.calls {ws : List (Path × Bytes)} (h : storage.recorded.Writes r ws r') :
    r'.calls = r.calls ++ ws.map .done := by
  induction h with
  | nil => simp
  | cons hw _ ih =>
      rw [ih, (write_recorded_ok hw).2, List.append_assoc]
      rfl

end SourceDesk
