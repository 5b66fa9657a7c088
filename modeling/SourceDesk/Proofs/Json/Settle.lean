import SourceDesk.Json.Tree

/-! Settled trees. In an object that is settled each key stands once, with the last value that
it had. -/
namespace SourceDesk.Json

/-- The values of the members with a key, in order. -/
def values (ms : List (String × Tree)) (key : String) : List Tree :=
  ms.filterMap fun m => if m.1 = key then some m.2 else none

/-- Members in ascending order of their keys, so that none stands twice. -/
def SortedMembers (ms : List (String × Tree)) : Prop := ms.Pairwise fun m n => m.1 < n.1

variable {ms done : List (String × Tree)} {key k : String} {t : Tree}

@[simp] theorem values_nil : values [] key = [] := rfl

@[simp] theorem values_cons_same : values ((key, t) :: ms) key = t :: values ms key := by
  simp [values]

theorem values_cons_other (h : k ≠ key) : values ((k, t) :: ms) key = values ms key := by
  simp [values, h]

theorem values_eq_nil (h : ∀ m ∈ ms, m.1 ≠ key) : values ms key = [] := by
  rw [values, List.filterMap_eq_nil_iff]
  intro m hm
  rw [if_neg (h m hm)]

/-- The order of the members matters to no key that stands once. -/
theorem values_perm {ns : List (String × Tree)} (h : ms.Perm ns) : (values ms key).Perm (values ns key) :=
  h.filterMap _

namespace Tree

theorem mem_insertMember {m : String × Tree} (h : m ∈ insertMember key t done) :
    m = (key, t) ∨ m ∈ done := by
  induction done with
  | nil => simpa [insertMember] using h
  | cons n done ih =>
      obtain ⟨k, v⟩ := n
      simp only [insertMember] at h
      split at h
      · exact (List.mem_cons.mp h).imp_right (List.mem_cons_of_mem _)
      split at h
      · exact List.mem_cons.mp h
      · rcases List.mem_cons.mp h with rfl | h
        · exact .inr List.mem_cons_self
        · exact (ih h).imp_right (List.mem_cons_of_mem _)

theorem sorted_insertMember (h : SortedMembers done) (key : String) (t : Tree) :
    SortedMembers (insertMember key t done) := by
  induction done with
  | nil => exact List.pairwise_singleton _ _
  | cons n done ih =>
      obtain ⟨k, v⟩ := n
      obtain ⟨hfirst, hrest⟩ := List.pairwise_cons.mp h
      simp only [insertMember]
      split
      · rename_i heq
        exact List.pairwise_cons.mpr ⟨by simpa [heq] using hfirst, hrest⟩
      split
      · rename_i hlt
        refine List.pairwise_cons.mpr ⟨fun m hm => ?_, h⟩
        rcases List.mem_cons.mp hm with rfl | hm
        · exact hlt
        · exact String.lt_trans hlt (hfirst m hm)
      · rename_i hne hnlt
        refine List.pairwise_cons.mpr ⟨fun m hm => ?_, ih hrest⟩
        rcases mem_insertMember hm with rfl | hm
        · exact Std.lt_of_le_of_ne (String.not_lt.mp hnlt) (Ne.symm hne)
        · exact hfirst m hm

/-- A member that is put in is the only one of its key, and changes no other. -/
theorem values_insertMember (h : SortedMembers done) (k key : String) (t : Tree) :
    values (insertMember k t done) key = if k = key then [t] else values done key := by
  induction done with
  | nil =>
      by_cases hk : k = key
      · subst hk
        rw [if_pos rfl, insertMember, values_cons_same, values_nil]
      · rw [if_neg hk, insertMember, values_cons_other hk]
  | cons n done ih =>
      obtain ⟨k', v⟩ := n
      obtain ⟨hfirst, hrest⟩ := List.pairwise_cons.mp h
      -- behind a first key none that comes before it in the order is left, nor the key itself
      have hnone {c : String} (hc : c < k' ∨ c = k') : values done c = [] :=
        values_eq_nil fun m hm heq => by
          have hlt : k' < c := by
            rw [← heq]
            exact hfirst m hm
          rcases hc with hc | rfl
          · exact String.lt_asymm hlt hc
          · exact String.lt_irrefl c hlt
      simp only [insertMember]
      split
      · rename_i heq
        subst heq
        split
        · rename_i heq
          subst heq
          rw [values_cons_same, hnone (.inr rfl)]
        · rename_i hne
          rw [values_cons_other hne, values_cons_other hne]
      rename_i hne
      split
      · rename_i hlt
        split
        · rename_i heq
          subst heq
          rw [values_cons_same, values_cons_other (Ne.symm hne), hnone (.inl hlt)]
        · rename_i hother
          rw [values_cons_other hother]
      · by_cases hk : k' = key
        · subst hk
          rw [values_cons_same, ih hrest, if_neg hne, if_neg hne, values_cons_same]
        · rw [values_cons_other hk, ih hrest, values_cons_other hk]

/-- Settling takes the last value of each key, settled in its turn. -/
theorem values_settleMembers (h : SortedMembers done) (ms : List (String × Tree)) (key : String) :
    values (settleMembers done ms) key =
      match (values ms key).getLast? with
      | some t => [t.settle]
      | none => values done key := by
  induction ms generalizing done with
  | nil => rfl
  | cons m ms ih =>
      obtain ⟨k, t⟩ := m
      rw [settleMembers, ih (sorted_insertMember h k t.settle), values_insertMember h]
      by_cases hk : k = key
      · subst hk
        rw [values_cons_same, if_pos rfl, List.getLast?_cons]
        cases (values ms k).getLast? <;> rfl
      · rw [values_cons_other hk, if_neg hk]

theorem values_settle (ms : List (String × Tree)) (key : String) :
    values (settleMembers [] ms) key = ((values ms key).getLast?.map settle).toList := by
  rw [values_settleMembers List.Pairwise.nil]
  cases (values ms key).getLast? <;> rfl

theorem settleItems_eq (ts : List Tree) : settleItems ts = ts.map settle := by
  induction ts with
  | nil => rfl
  | cons t ts ih => rw [settleItems, ih, List.map_cons]

theorem settle_eq_text_iff {s : String} : t.settle = .text s ↔ t = .text s := by
  cases t <;> simp [settle]

theorem settle_eq_array_iff {ts : List Tree} :
    t.settle = .array ts ↔ ∃ us, t = .array us ∧ ts = us.map settle := by
  cases t <;> simp [settle, settleItems_eq, eq_comm]

end Tree

end SourceDesk.Json
