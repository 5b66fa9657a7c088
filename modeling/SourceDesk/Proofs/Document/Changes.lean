import SourceDesk.Proofs.Document.Set

/-! Sets under changes of every kind. Besides putting documents in, whoever holds a set can
change what stands under a key, or in every slot, in any way, the name included. Which keys
there are and where they stand is decided by what was put in and nothing else; names have
a part in it only as long as nobody changes one. -/
namespace SourceDesk.DocumentSet

/-- A change of a set: a document is put in, the document under a key is changed, or
every document is changed as its slot asks for. -/
inductive Change where
  | insert (d : Document)
  | modify (key : String) (f : Document → Document)
  | mapSlots (f : Nat → Document → Document)

namespace Change

def apply (s : DocumentSet) : Change → DocumentSet
  | .insert d => s.insert d
  | .modify key f => s.modify key f
  | .mapSlots f => s.mapSlots f

/-- Whether a change leaves the documents that are in a set their names. -/
def KeepsNames (s : DocumentSet) : Change → Prop
  | .insert _ => True
  | .modify key f => ∀ d, s.get? key = some d → (f d).name = d.name
  | .mapSlots f => ∀ slot d, s.documents[slot]? = some d → (f slot d).name = d.name

end Change

/-- The set after changes, one after the other. -/
def changed : DocumentSet → List Change → DocumentSet
  | s, [] => s
  | s, c :: cs => (c.apply s).changed cs

/-- Whether no name is changed on the way. -/
def NamesKept : DocumentSet → List Change → Prop
  | _, [] => True
  | s, c :: cs => c.KeepsNames s ∧ (c.apply s).NamesKept cs

/-- The keys of a set, slot by slot. The index holds these and no others, its slots are
slots of documents, and whatever is looked up is looked up by key. -/
structure Keyed (s : DocumentSet) (keys : List String) : Prop where
  nodup : keys.Nodup
  size_eq : s.size = keys.length
  mem_index_iff : ∀ key slot, (key, slot) ∈ s.index ↔ keys[slot]? = some key
  slot?_iff : ∀ key slot, s.slot? key = some slot ↔ keys[slot]? = some key
  slot_lt : ∀ key slot, s.slot? key = some slot → slot < s.documents.length
  contains_iff : ∀ key, s.contains key = true ↔ key ∈ keys
  get?_iff : ∀ key d, s.get? key = some d ↔
    ∃ slot : Nat, keys[slot]? = some key ∧ s.documents[slot]? = some d
  get?_isSome : ∀ key, (s.get? key).isSome ↔ key ∈ keys
  modify_of_mem : ∀ key slot f, keys[slot]? = some key →
    s.modify key f = { s with documents := s.documents.modify slot f }
  modify_of_not_mem : ∀ key f, key ∉ keys → s.modify key f = s

variable {s : DocumentSet} {d : Document} {cs : List Change} {slot : Nat}

theorem WellFormed.keyed (h : s.WellFormed) : s.Keyed s.keys where
  nodup := h.nodup
  size_eq := h.length_eq.symm
  mem_index_iff _ _ := h.mem_index_iff
  slot?_iff _ _ := h.slot?_eq_some_iff
  slot_lt key slot hslot := by
    rw [← h.length_eq]
    exact (List.getElem?_eq_some_iff.mp (h.slot?_eq_some_iff.mp hslot)).1
  contains_iff key := by
    rw [contains, Option.isSome_iff_ne_none, ne_eq, slot?_eq_none_iff, not_not]
  get?_iff _ _ := h.get?_eq_some_iff
  get?_isSome _ := h.get?_isSome_iff
  modify_of_mem _ _ _ hkey := modify_eq_of_slot (h.slot?_eq_some_iff.mpr hkey)
  modify_of_not_mem _ _ hkey := DocumentSet.modify_of_not_mem hkey

/-! ### What changes keep -/

theorem WellFormed.mapSlots (h : s.WellFormed) (f : Nat → Document → Document) :
    (s.mapSlots f).WellFormed :=
  h.documents (List.length_mapIdx ..)

theorem WellFormed.apply (h : s.WellFormed) (c : Change) : (c.apply s).WellFormed := by
  cases c with
  | insert d => exact h.insert d
  | modify key f => exact h.modify
  | mapSlots f => exact h.mapSlots f

theorem WellFormed.changed (h : s.WellFormed) (cs : List Change) : (s.changed cs).WellFormed := by
  induction cs generalizing s with
  | nil => exact h
  | cons c cs ih => exact ih (h.apply c)

theorem Named.mapSlots (hn : s.Named) {f : Nat → Document → Document}
    (hf : ∀ slot d, s.documents[slot]? = some d → (f slot d).name = d.name) :
    (s.mapSlots f).Named := by
  have hnames : (s.mapSlots f).names = s.names := by
    apply List.ext_getElem?
    intro i
    cases hd : s.documents[i]? with
    | none => simp [names, DocumentSet.mapSlots, hd]
    | some d => simp [names, DocumentSet.mapSlots, hd, hf i d hd]
  exact hnames.trans hn

theorem Named.apply (hn : s.Named) (h : s.WellFormed) {c : Change} (hc : c.KeepsNames s) :
    (c.apply s).Named := by
  cases c with
  | insert d => exact hn.insert h d
  | modify key f => exact hn.modify hc
  | mapSlots f => exact hn.mapSlots hc

theorem Named.changed (hn : s.Named) (h : s.WellFormed) (hcs : s.NamesKept cs) :
    (s.changed cs).Named := by
  induction cs generalizing s with
  | nil => exact hn
  | cons c cs ih => exact ih (hn.apply h hcs.1) (h.apply c) hcs.2

/-! ### Insertion as an answer -/

/-- Where a document has the key, it goes into the slot, and the old one is answered. -/
theorem WellFormed.exchange_of_mem (h : s.WellFormed) (hkey : s.keys[slot]? = some d.name) :
    ∃ old, s.documents[slot]? = some old ∧
      s.exchange d = ({ s with documents := s.documents.set slot d }, some old) ∧
      (s.insert d).keys = s.keys := by
  have hslot : s.slot? d.name = some slot := h.slot?_eq_some_iff.mpr hkey
  obtain ⟨old, hold⟩ : ∃ old, s.documents[slot]? = some old :=
    ⟨_, List.getElem?_eq_getElem (h.keyed.slot_lt _ _ hslot)⟩
  refine ⟨old, hold, ?_, ?_⟩
  · simp only [exchange, hslot, hold]
  · rw [insert_of_slot hslot, keys_documents]

theorem WellFormed.exchange_of_not_mem (h : s.WellFormed) (hkey : d.name ∉ s.keys) :
    s.exchange d = (⟨s.index ++ [(d.name, s.keys.length)], s.documents ++ [d]⟩, none) ∧
      (s.insert d).keys = s.keys ++ [d.name] := by
  constructor
  · simp only [exchange, slot?_eq_none_iff.mpr hkey, h.length_eq]
  · rw [insert_of_new hkey, keys_concat]

/-- A set that was built by changes of any kind has a key for each slot, and another one
for each. Putting a document in replaces the one under its name, in its slot, or appends
it with its name as a new key. As long as no name was changed the keys are the names. -/
theorem changed_keyed (cs : List Change) :
    let s := empty.changed cs
    ∃ keys : List String, s.Keyed keys ∧
      (∀ (d : Document) (slot : Nat), keys[slot]? = some d.name → ∃ old,
        s.documents[slot]? = some old ∧
        s.exchange d = ({ s with documents := s.documents.set slot d }, some old) ∧
        (s.insert d).Keyed keys) ∧
      (∀ d : Document, d.name ∉ keys →
        s.exchange d = (⟨s.index ++ [(d.name, keys.length)], s.documents ++ [d]⟩, none) ∧
        (s.insert d).Keyed (keys ++ [d.name])) ∧
      (empty.NamesKept cs → keys = s.names ∧
        (∀ name d, s.get? name = some d → d.name = name) ∧
        ∀ d ∈ s.documents, s.get? d.name = some d) := by
  intro s
  have hs : s.WellFormed := wellFormed_empty.changed cs
  refine ⟨s.keys, hs.keyed, ?_, ?_, ?_⟩
  · intro d slot hkey
    obtain ⟨old, hold, hexchange, hkeys⟩ := hs.exchange_of_mem hkey
    refine ⟨old, hold, hexchange, ?_⟩
    rw [← hkeys]
    exact (hs.insert d).keyed
  · intro d hkey
    obtain ⟨hexchange, hkeys⟩ := hs.exchange_of_not_mem hkey
    refine ⟨hexchange, ?_⟩
    rw [← hkeys]
    exact (hs.insert d).keyed
  · intro hkept
    have hn : s.Named := named_empty.changed wellFormed_empty hkept
    refine ⟨Eq.symm hn, ?_, ?_⟩
    · intro name d hget
      exact hn.name_eq hs hget
    · intro d hd
      exact hn.get?_name hs hd

/-- A document that was renamed stays under its key, and the name it has now is free. -/
example :
    let d (name : String) : Document := .generated ⟨name, ""⟩
    let s := empty.changed [.insert (d "a"), .modify "a" fun e => { e with name := "b" },
      .insert (d "b")]
    s.names = ["b", "b"] ∧ s.keys = ["a", "b"] := by
  decide

end SourceDesk.DocumentSet
