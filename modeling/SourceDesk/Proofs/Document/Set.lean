import Mathlib.Data.List.Induction
import Mathlib.Data.List.Nodup
import SourceDesk.Document.Set

/-! Document sets as maps from keys to documents. Slots are an implementation of
that: every operation is described here by its effect on `keys` and on `get?`, and
later modules know sets by these equations only. -/
namespace SourceDesk.DocumentSet

variable {s : DocumentSet} {d e : Document} {key other : String} {slot : Nat}

/-! ### Slots -/

theorem slot?_eq_none_iff : s.slot? key = none ↔ key ∉ s.keys := by
  simp only [slot?, keys, List.lookup_eq_none_iff, bne_iff_ne, List.mem_map, not_exists, not_and]
  exact ⟨fun h p hp heq => h p hp heq.symm, fun h p hp heq => h p hp heq.symm⟩

theorem WellFormed.length_eq (h : s.WellFormed) : s.keys.length = s.documents.length := by
  have hslots := congrArg List.length h.slots
  simpa [keys] using hslots

theorem WellFormed.eq_empty (h : s.WellFormed) (hkeys : s.keys = []) : s = empty := by
  have hdocuments : s.documents = [] := by
    rw [← List.length_eq_zero_iff, ← h.length_eq, hkeys, List.length_nil]
  have hindex : s.index = [] := List.map_eq_nil_iff.mp hkeys
  cases s
  cases hindex
  cases hdocuments
  rfl

/-- The slot that stands with a key in the index is where the pair is. -/
theorem WellFormed.slot_eq (h : s.WellFormed) {i : Nat} (hi : s.index[i]? = some (key, slot)) :
    slot = i := by
  have hslot : (s.index.map Prod.snd)[i]? = some slot := by simp [hi]
  rw [h.slots] at hslot
  obtain ⟨hlt, heq⟩ := List.getElem?_eq_some_iff.mp hslot
  rw [← heq, List.getElem_range]

theorem WellFormed.mem_index_iff (h : s.WellFormed) :
    (key, slot) ∈ s.index ↔ s.keys[slot]? = some key := by
  constructor
  · intro hmem
    obtain ⟨i, hi⟩ := List.getElem?_of_mem hmem
    obtain rfl := h.slot_eq hi
    simp [keys, hi]
  · intro hkey
    simp only [keys, List.getElem?_map, Option.map_eq_some_iff] at hkey
    obtain ⟨⟨name, other⟩, hi, rfl⟩ := hkey
    obtain rfl := h.slot_eq hi
    exact List.mem_of_getElem? hi

theorem WellFormed.slot?_eq_some_iff (h : s.WellFormed) :
    s.slot? key = some slot ↔ s.keys[slot]? = some key := by
  rw [← h.mem_index_iff, slot?, List.lookup_eq_some_iff]
  constructor
  · rintro ⟨before, after, hindex, -⟩
    simp [hindex]
  · intro hmem
    obtain ⟨before, after, hindex⟩ := List.append_of_mem hmem
    refine ⟨before, after, hindex, fun p hp => bne_iff_ne.mpr ?_⟩
    -- no key comes twice, so the first pair with the key is this one
    have hnodup := h.nodup
    simp only [keys, hindex, List.map_append, List.map_cons, List.nodup_append] at hnodup
    exact (hnodup.2.2 p.1 (List.mem_map_of_mem hp) key (by simp)).symm

/-- A document stands under a key when both are in one slot. -/
theorem WellFormed.get?_eq_some_iff (h : s.WellFormed) :
    s.get? key = some d ↔ ∃ i : Nat, s.keys[i]? = some key ∧ s.documents[i]? = some d := by
  simp only [get?, Option.bind_eq_some_iff, h.slot?_eq_some_iff]

theorem WellFormed.get?_of_slot (h : s.WellFormed) (hk : s.keys[slot]? = some key) :
    s.get? key = s.documents[slot]? := by
  rw [get?, h.slot?_eq_some_iff.mpr hk]
  rfl

theorem WellFormed.get?_isSome_iff (h : s.WellFormed) : (s.get? key).isSome ↔ key ∈ s.keys := by
  constructor
  · intro hs
    obtain ⟨d, hd⟩ := Option.isSome_iff_exists.mp hs
    obtain ⟨i, hk, -⟩ := h.get?_eq_some_iff.mp hd
    exact List.mem_of_getElem? hk
  · intro hk
    obtain ⟨i, hi, hkey⟩ := List.getElem_of_mem hk
    rw [h.get?_of_slot (List.getElem?_eq_some_iff.mpr ⟨hi, hkey⟩)]
    simp [← h.length_eq, hi]

theorem WellFormed.get?_eq_none_iff (h : s.WellFormed) : s.get? key = none ↔ key ∉ s.keys := by
  rw [← h.get?_isSome_iff]
  simp

/-- Every document of a set stands under a key. -/
theorem WellFormed.mem_documents_iff (h : s.WellFormed) :
    d ∈ s.documents ↔ ∃ key, s.get? key = some d := by
  constructor
  · intro hd
    obtain ⟨i, hi, hdoc⟩ := List.getElem_of_mem hd
    have hk : i < s.keys.length := h.length_eq ▸ hi
    refine ⟨s.keys[i], h.get?_eq_some_iff.mpr ⟨i, ?_, ?_⟩⟩
    · exact List.getElem?_eq_getElem hk
    · exact List.getElem?_eq_some_iff.mpr ⟨hi, hdoc⟩
  · rintro ⟨key, hget⟩
    obtain ⟨i, -, hdoc⟩ := h.get?_eq_some_iff.mp hget
    exact List.mem_of_getElem? hdoc

/-! ### Insertion -/

theorem wellFormed_empty : empty.WellFormed := ⟨List.nodup_nil, rfl⟩

@[simp] theorem get?_empty : empty.get? key = none := rfl

@[simp] theorem keys_documents (s : DocumentSet) (ds : List Document) :
    keys { s with documents := ds } = s.keys := rfl

@[simp] theorem slot?_documents (s : DocumentSet) (ds : List Document) (key : String) :
    slot? { s with documents := ds } key = s.slot? key := rfl

/-- What becomes of the documents is nothing to the index, as long as none comes or goes. -/
theorem WellFormed.documents (h : s.WellFormed) {ds : List Document}
    (hlength : ds.length = s.documents.length) : WellFormed { s with documents := ds } :=
  ⟨h.nodup, by rw [hlength, ← h.slots]⟩

@[simp] theorem keys_concat (s : DocumentSet) (ds : List Document) (key : String) (slot : Nat) :
    keys ⟨s.index ++ [(key, slot)], ds⟩ = s.keys ++ [key] := by
  simp [keys]

theorem insert_of_slot (h : s.slot? d.name = some slot) :
    s.insert d = { s with documents := s.documents.set slot d } := by
  simp [insert, exchange, h]

theorem insert_of_new (h : d.name ∉ s.keys) :
    s.insert d = ⟨s.index ++ [(d.name, s.documents.length)], s.documents ++ [d]⟩ := by
  simp [insert, exchange, slot?_eq_none_iff.mpr h]

theorem exists_slot_of_mem (h : key ∈ s.keys) : ∃ i, s.slot? key = some i :=
  Option.ne_none_iff_exists'.mp fun hn => slot?_eq_none_iff.mp hn h

theorem keys_insert : (s.insert d).keys =
    if d.name ∈ s.keys then s.keys else s.keys ++ [d.name] := by
  split
  · rename_i hk
    obtain ⟨i, hi⟩ := exists_slot_of_mem hk
    rw [insert_of_slot hi, keys_documents]
  · rename_i hk
    rw [insert_of_new hk, keys_concat]

theorem WellFormed.insert (h : s.WellFormed) (d : Document) : (s.insert d).WellFormed := by
  by_cases hk : d.name ∈ s.keys
  · obtain ⟨i, hi⟩ := exists_slot_of_mem hk
    rw [insert_of_slot hi]
    exact h.documents (List.length_set ..)
  · rw [insert_of_new hk]
    refine ⟨?_, by simp [h.slots, List.range_succ]⟩
    simpa [List.nodup_append, h.nodup] using fun key hkey => ne_of_mem_of_not_mem hkey hk

theorem getElem?_concat_eq_some_iff {α : Type} {l : List α} {a b : α} {i : Nat} :
    (l ++ [a])[i]? = some b ↔ l[i]? = some b ∨ i = l.length ∧ a = b := by
  by_cases hlt : i < l.length
  · rw [List.getElem?_append_left hlt]
    simp [Nat.ne_of_lt hlt]
  · rw [List.getElem?_append_right (by omega), List.getElem?_eq_none (l := l) (by omega)]
    by_cases heq : i = l.length
    · simp [heq]
    · simp [heq, show i - l.length ≠ 0 by omega]

theorem WellFormed.get?_insert_of_mem (h : s.WellFormed) (hk : d.name ∈ s.keys) :
    (s.insert d).get? key = if key = d.name then some d else s.get? key := by
  obtain ⟨slot, hslot⟩ := exists_slot_of_mem hk
  have hkey : s.keys[slot]? = some d.name := h.slot?_eq_some_iff.mp hslot
  have hlt : slot < s.documents.length := h.length_eq ▸ (List.getElem?_eq_some_iff.mp hkey).1
  have hw := h.insert d
  rw [insert_of_slot hslot] at hw ⊢
  split
  · rename_i heq
    subst heq
    exact hw.get?_eq_some_iff.mpr ⟨slot, hkey, by simp [hlt]⟩
  · rename_i hne
    apply Option.ext
    intro e
    rw [hw.get?_eq_some_iff, h.get?_eq_some_iff]
    refine exists_congr fun i => and_congr_right fun hki => ?_
    have hsi : slot ≠ i := by
      rintro rfl
      exact hne (Option.some.inj (hki.symm.trans hkey))
    rw [List.getElem?_set_ne hsi]

theorem WellFormed.get?_insert_of_new (h : s.WellFormed) (hk : d.name ∉ s.keys) :
    (s.insert d).get? key = if key = d.name then some d else s.get? key := by
  have hw := h.insert d
  rw [insert_of_new hk] at hw ⊢
  split
  · rename_i heq
    subst heq
    refine hw.get?_eq_some_iff.mpr ⟨s.keys.length, ?_, ?_⟩
    · rw [keys_concat, List.getElem?_concat_length]
    · rw [h.length_eq, List.getElem?_concat_length]
  · rename_i hne
    apply Option.ext
    intro e
    rw [hw.get?_eq_some_iff, h.get?_eq_some_iff]
    refine exists_congr fun i => ?_
    rw [keys_concat, getElem?_concat_eq_some_iff, getElem?_concat_eq_some_iff]
    -- the new slot is behind all others in both columns, and `key` is not in it
    constructor
    · rintro ⟨hki | ⟨-, hname⟩, hdi⟩
      · have hlt := (List.getElem?_eq_some_iff.mp hki).1
        rw [h.length_eq] at hlt
        exact ⟨hki, hdi.resolve_right fun hd => Nat.ne_of_lt hlt hd.1⟩
      · exact absurd hname.symm hne
    · exact fun hi => ⟨.inl hi.1, .inl hi.2⟩

/-- A document that is inserted is the one under its name from then on, and no other
key is affected. -/
theorem WellFormed.get?_insert (h : s.WellFormed) (d : Document) (key : String) :
    (s.insert d).get? key = if key = d.name then some d else s.get? key := by
  by_cases hk : d.name ∈ s.keys
  · exact h.get?_insert_of_mem hk
  · exact h.get?_insert_of_new hk

/-! ### Changes in place -/

variable {f : Document → Document}

theorem modify_eq_of_slot (h : s.slot? key = some slot) :
    s.modify key f = { s with documents := s.documents.modify slot f } := by
  simp [modify, h]

theorem modify_of_not_mem (h : key ∉ s.keys) : s.modify key f = s := by
  simp [modify, slot?_eq_none_iff.mpr h]

@[simp] theorem keys_modify : (s.modify key f).keys = s.keys := by
  unfold modify
  split <;> rfl

theorem WellFormed.modify (h : s.WellFormed) : (s.modify key f).WellFormed := by
  unfold DocumentSet.modify
  split
  · exact h.documents (List.length_modify ..)
  · exact h

theorem WellFormed.get?_modify (h : s.WellFormed) (key other : String) (f : Document → Document) :
    (s.modify key f).get? other =
      if other = key then (s.get? key).map f else s.get? other := by
  by_cases hk : key ∈ s.keys
  · obtain ⟨slot, hslot⟩ := exists_slot_of_mem hk
    rw [modify_eq_of_slot hslot]
    split
    · rename_i heq
      subst heq
      simp [get?, hslot]
    · rename_i hne
      simp only [get?, slot?_documents]
      cases hi : s.slot? other with
      | none => rfl
      | some i =>
          have hsi : slot ≠ i := by
            rintro rfl
            have hother := h.slot?_eq_some_iff.mp hi
            rw [h.slot?_eq_some_iff.mp hslot] at hother
            exact hne (Option.some.inj hother).symm
          simp [List.getElem?_modify_ne f s.documents hsi]
  · rw [modify_of_not_mem hk]
    split
    · rename_i heq
      subst heq
      simp [h.get?_eq_none_iff.mpr hk]
    · rfl

/-- A change that changes nothing under the key is none. -/
theorem modify_eq_self (h : ∀ d, s.get? key = some d → f d = d) : s.modify key f = s := by
  cases hslot : s.slot? key with
  | none => simp [modify, hslot]
  | some slot =>
      have hsame : s.documents.modify slot f = s.documents := by
        apply List.ext_getElem?
        intro i
        by_cases hi : slot = i
        · subst hi
          rw [List.getElem?_modify_eq]
          cases hd : s.documents[slot]? with
          | none => rfl
          | some d => simp [h d (by simp [get?, hslot, hd])]
        · rw [List.getElem?_modify_ne f _ hi]
      rw [modify_eq_of_slot hslot, hsame]

/-- A change in place is not seen through what it keeps. -/
theorem map_modify_eq {α β : Type} {f : α → α} {g : α → β} {l : List α} {i : Nat}
    (h : ∀ a, l[i]? = some a → g (f a) = g a) : (l.modify i f).map g = l.map g := by
  apply List.ext_getElem?
  intro j
  by_cases hj : i = j
  · subst hj
    cases ha : l[i]? with
    | none => simp [ha]
    | some a => simp [ha, h a ha]
  · simp [List.getElem?_modify_ne f l hj]

/-- Changes the document in a slot. -/
def modifySlot (s : DocumentSet) (slot : Nat) (f : Document → Document) : DocumentSet :=
  { s with documents := s.documents.modify slot f }

@[simp] theorem keys_modifySlot : (s.modifySlot slot f).keys = s.keys := rfl

theorem WellFormed.modifySlot (h : s.WellFormed) : (s.modifySlot slot f).WellFormed :=
  h.documents (List.length_modify ..)

/-- A change in a slot is a change of the document under its key. -/
theorem WellFormed.get?_modifySlot (h : s.WellFormed) (slot : Nat) (key : String)
    (f : Document → Document) :
    (s.modifySlot slot f).get? key =
      if s.keys[slot]? = some key then (s.get? key).map f else s.get? key := by
  cases hk : s.keys[slot]? with
  | none =>
      have hout : s.documents.length ≤ slot := by
        rw [← h.length_eq]
        exact List.getElem?_eq_none_iff.mp hk
      simp [DocumentSet.modifySlot, List.modify_eq_self hout]
  | some name =>
      rw [DocumentSet.modifySlot, ← modify_eq_of_slot (h.slot?_eq_some_iff.mpr hk),
        h.get?_modify]
      by_cases hname : key = name
      · simp [hname]
      · simp [hname, Ne.symm hname]

theorem get?_map : (s.map f).get? key = (s.get? key).map f := by
  simp only [get?, map, slot?_documents, List.getElem?_map]
  cases s.slot? key <;> rfl

/-! ### Names -/

/-- No name was changed since its document was inserted. -/
def Named (s : DocumentSet) : Prop := s.names = s.keys

theorem named_empty : empty.Named := rfl

theorem Named.insert (hn : s.Named) (h : s.WellFormed) (d : Document) : (s.insert d).Named := by
  by_cases hk : d.name ∈ s.keys
  · obtain ⟨slot, hslot⟩ := exists_slot_of_mem hk
    obtain ⟨hlt, hkey⟩ := List.getElem?_eq_some_iff.mp (h.slot?_eq_some_iff.mp hslot)
    rw [insert_of_slot hslot, Named, names, List.map_set, keys_documents]
    rw [show s.documents.map Document.name = s.keys from hn, ← hkey, List.set_getElem_self]
  · rw [insert_of_new hk, Named, names, List.map_append, keys_concat]
    rw [show s.documents.map Document.name = s.keys from hn]
    rfl

theorem Named.modifySlot (hn : s.Named)
    (hf : ∀ d, s.documents[slot]? = some d → (f d).name = d.name) : (s.modifySlot slot f).Named :=
  (map_modify_eq hf).trans hn

theorem Named.modify (hn : s.Named) (hf : ∀ d, s.get? key = some d → (f d).name = d.name) :
    (s.modify key f).Named := by
  unfold DocumentSet.modify
  split
  · rename_i slot hslot
    exact hn.modifySlot fun d hd => hf d (by simp [get?, hslot, hd])
  · exact hn

/-- The key of a document is its name. -/
theorem Named.name_eq (hn : s.Named) (h : s.WellFormed) (hget : s.get? key = some d) :
    d.name = key := by
  obtain ⟨i, hk, hd⟩ := h.get?_eq_some_iff.mp hget
  have hname : s.names[i]? = some d.name := by simp [names, hd]
  rw [show s.names = s.keys from hn, hk] at hname
  exact (Option.some.inj hname).symm

theorem Named.get?_name (hn : s.Named) (h : s.WellFormed) (hd : d ∈ s.documents) :
    s.get? d.name = some d := by
  obtain ⟨key, hget⟩ := h.mem_documents_iff.mp hd
  rw [hn.name_eq h hget, hget]

/-! ### Lists of documents -/

variable {ds : List Document}

/-- Puts the documents of a list into a set, one after the other. -/
def insertAll (s : DocumentSet) (ds : List Document) : DocumentSet := ds.foldl DocumentSet.insert s

theorem insertAll_append (s : DocumentSet) (ds es : List Document) :
    s.insertAll (ds ++ es) = (s.insertAll ds).insertAll es :=
  List.foldl_append

theorem insertAll_concat (s : DocumentSet) (ds : List Document) (d : Document) :
    s.insertAll (ds ++ [d]) = (s.insertAll ds).insert d :=
  s.insertAll_append ds [d]

theorem WellFormed.insertAll (h : s.WellFormed) (ds : List Document) :
    (s.insertAll ds).WellFormed := by
  induction ds using List.reverseRecOn with
  | nil => exact h
  | append_singleton ds d ih =>
      rw [insertAll_concat]
      exact ih.insert d

theorem Named.insertAll (hn : s.Named) (h : s.WellFormed) (ds : List Document) :
    (s.insertAll ds).Named := by
  induction ds using List.reverseRecOn with
  | nil => exact hn
  | append_singleton ds d ih =>
      rw [insertAll_concat]
      exact ih.insert (h.insertAll ds) d

theorem eraseDups_concat {names : List String} {name : String} :
    (names ++ [name]).eraseDups =
      if name ∈ names then names.eraseDups else names.eraseDups ++ [name] := by
  rw [List.eraseDups_append]
  by_cases h : name ∈ names
  · simp [h, List.removeAll]
  · simp [h, List.removeAll, List.eraseDups_cons]

/-- The names of a list that are no keys yet come behind the keys, each where it came first. -/
theorem keys_insertAll (s : DocumentSet) (ds : List Document) :
    (s.insertAll ds).keys =
      s.keys ++ ((ds.map Document.name).filter (· ∉ s.keys)).eraseDups := by
  induction ds using List.reverseRecOn with
  | nil => exact (List.append_nil s.keys).symm
  | append_singleton ds d ih =>
      rw [insertAll_concat, keys_insert, ih, List.map_append, List.filter_append]
      by_cases hkey : d.name ∈ s.keys
      · simp [hkey]
      · have hnew : [d.name].filter (· ∉ s.keys) = [d.name] := by simp [hkey]
        rw [List.map_singleton, hnew, eraseDups_concat]
        simp only [List.mem_append, List.mem_eraseDups, hkey, false_or]
        split
        · rfl
        · rw [List.append_assoc]

/-- Of the documents of a list with one name, the last is found; if there is none, what was
under the name before. -/
theorem WellFormed.get?_insertAll (h : s.WellFormed) (ds : List Document) (key : String) :
    (s.insertAll ds).get? key = ((ds.filter fun d => d.name = key).getLast?).or (s.get? key) := by
  induction ds using List.reverseRecOn with
  | nil => rfl
  | append_singleton ds d ih =>
      rw [insertAll_concat, (h.insertAll ds).get?_insert, ih, List.filter_append]
      by_cases hd : d.name = key
      · simp [hd]
      · simp [hd, Ne.symm hd]

/-- A set is what it has under its keys. -/
theorem WellFormed.ext {t : DocumentSet} (hs : s.WellFormed) (ht : t.WellFormed)
    (hkeys : s.keys = t.keys) (hget : ∀ key, s.get? key = t.get? key) : s = t := by
  have hlength : s.documents.length = t.documents.length := by
    rw [← hs.length_eq, ← ht.length_eq, hkeys]
  have hdocuments : s.documents = t.documents := by
    refine List.ext_getElem? fun i => ?_
    cases hk : s.keys[i]? with
    | none =>
        have hout := List.getElem?_eq_none_iff.mp hk
        rw [hs.length_eq] at hout
        rw [List.getElem?_eq_none hout, List.getElem?_eq_none (hlength ▸ hout)]
    | some key => rw [← hs.get?_of_slot hk, hget, ht.get?_of_slot (hkeys ▸ hk)]
  have hindex : s.index = t.index := by
    rw [← List.zip_unzip s.index, ← List.zip_unzip t.index, List.unzip_eq_map, List.unzip_eq_map]
    simp only [hs.slots, ht.slots, hlength]
    exact congrArg (List.zip · _) hkeys
  cases s
  cases t
  cases hindex
  cases hdocuments
  rfl

/-- A list that was put into a set can be put into it again. -/
theorem WellFormed.insertAll_insertAll (h : s.WellFormed) (ds : List Document) :
    (s.insertAll ds).insertAll ds = s.insertAll ds := by
  refine ((h.insertAll ds).insertAll ds).ext (h.insertAll ds) ?_ fun key => ?_
  · have hnone : (ds.map Document.name).filter (· ∉ (s.insertAll ds).keys) = [] := by
      rw [keys_insertAll]
      simp only [List.filter_eq_nil_iff, decide_eq_true_eq, not_not, List.mem_append,
        List.mem_eraseDups, List.mem_filter]
      exact fun name hname => or_iff_not_imp_left.mpr fun hold => ⟨hname, hold⟩
    rw [keys_insertAll, hnone, List.eraseDups_nil, List.append_nil]
  · rw [(h.insertAll ds).get?_insertAll, h.get?_insertAll, ← Option.or_assoc, Option.or_self]

/-! ### Sets of lists -/

theorem ofList_eq (ds : List Document) : ofList ds = empty.insertAll ds := rfl

theorem ofList_concat : ofList (ds ++ [d]) = (ofList ds).insert d :=
  empty.insertAll_concat ds d

theorem wellFormed_ofList (ds : List Document) : (ofList ds).WellFormed :=
  wellFormed_empty.insertAll ds

/-- The keys of a list are its names, each where it came first. -/
theorem keys_ofList (ds : List Document) : (ofList ds).keys = (ds.map Document.name).eraseDups := by
  rw [ofList_eq, keys_insertAll, show empty.keys = [] from rfl, List.nil_append]
  simp

/-- Of the documents of a list with one name, the last is kept. -/
theorem get?_ofList (ds : List Document) (key : String) :
    (ofList ds).get? key = (ds.filter fun d => d.name = key).getLast? := by
  rw [ofList_eq, wellFormed_empty.get?_insertAll, get?_empty, Option.or_none]

/-- Documents with different names stand in the set as they stand in the list. -/
theorem documents_ofList (h : (ds.map Document.name).Nodup) : (ofList ds).documents = ds := by
  induction ds using List.reverseRecOn with
  | nil => rfl
  | append_singleton ds d ih =>
      rw [List.map_append, List.nodup_append] at h
      obtain ⟨hds, -, hnew⟩ := h
      have hkey : d.name ∉ (ofList ds).keys := by
        rw [keys_ofList, List.mem_eraseDups]
        exact fun hmem => hnew d.name hmem d.name (by simp) rfl
      rw [ofList_concat, insert_of_new hkey, ih hds]

theorem mem_of_mem_ofList (h : d ∈ (ofList ds).documents) : d ∈ ds := by
  obtain ⟨key, hget⟩ := (wellFormed_ofList ds).mem_documents_iff.mp h
  rw [get?_ofList] at hget
  exact (List.mem_filter.mp (List.mem_of_getLast? hget)).1

end SourceDesk.DocumentSet
