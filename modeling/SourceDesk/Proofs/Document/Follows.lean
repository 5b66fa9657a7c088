import SourceDesk.Proofs.Document.Set

/-! Document sets against logs. A log is a list of named texts, the latest at the end.
What a set keeps of it is stated apart from the slots: for each name the last content,
wherever the documents stand. -/
namespace SourceDesk

theorem filterMap_cons_eq {α β : Type} (f : α → Option β) (a : α) (l : List α) :
    (a :: l).filterMap f = (f a).toList ++ l.filterMap f := by
  cases h : f a <;> simp [h]

theorem filterMap_concat {α β : Type} (f : α → Option β) (l : List α) (a : α) :
    (l ++ [a]).filterMap f = l.filterMap f ++ (f a).toList := by
  rw [List.filterMap_append, filterMap_cons_eq, List.filterMap_nil, List.append_nil]

/-- The last content that a log gives a name. -/
def NamedText.latest? (log : List NamedText) (name : String) : Option String :=
  ((log.filter fun t => t.name = name).getLast?).map NamedText.content

variable {log : List NamedText} {t : NamedText} {name : String}

theorem NamedText.latest?_concat : latest? (log ++ [t]) name =
    if name = t.name then some t.content else latest? log name := by
  by_cases h : t.name = name
  · simp [latest?, h]
  · simp [latest?, h, Ne.symm h]

namespace DocumentSet

/-- The documents have the last contents of a log. -/
structure Follows (s : DocumentSet) (log : List NamedText) : Prop where
  wellFormed : s.WellFormed
  named : s.Named
  latest : ∀ {key d}, s.get? key = some d → NamedText.latest? log key = some d.content

variable {s : DocumentSet} {d : Document}

theorem Follows.empty (log : List NamedText) : empty.Follows log :=
  ⟨wellFormed_empty, named_empty, by simp⟩

theorem Follows.insert (h : s.Follows log) (d : Document) :
    (s.insert d).Follows (log ++ [d.toText]) := by
  refine ⟨h.wellFormed.insert d, h.named.insert h.wellFormed d, ?_⟩
  intro key e hget
  rw [h.wellFormed.get?_insert] at hget
  rw [NamedText.latest?_concat]
  by_cases hkey : key = d.name
  · obtain rfl : d = e := by simpa [hkey] using hget
    simp [hkey, Document.toText]
  · simp only [hkey, if_false] at hget
    simpa [Document.toText, hkey] using h.latest hget

/-- A text that is handed in counts, whether there is a document for it or not. -/
theorem Follows.commit (h : s.Follows log) (name content : String) :
    (s.modify name fun d => d.commit content).Follows (log ++ [⟨name, content⟩]) := by
  refine ⟨h.wellFormed.modify, h.named.modify fun d _ => ?_, ?_⟩
  · unfold Document.commit
    split <;> rfl
  · intro key e hget
    rw [h.wellFormed.get?_modify] at hget
    rw [NamedText.latest?_concat]
    by_cases hkey : key = name
    · simp only [hkey, if_true, Option.map_eq_some_iff] at hget ⊢
      obtain ⟨d, -, rfl⟩ := hget
      unfold Document.commit
      split
      · rename_i hsame
        rw [hsame]
      · rfl
    · simp only [hkey, if_false] at hget ⊢
      exact h.latest hget

/-- Changes besides the text do not count. -/
theorem Follows.modifySlot (h : s.Follows log) {f : Document → Document}
    (hf : ∀ d, (f d).toText = d.toText) (slot : Nat) : (s.modifySlot slot f).Follows log := by
  have hname : ∀ d, (f d).name = d.name := fun d => congrArg NamedText.name (hf d)
  refine ⟨h.wellFormed.modifySlot, h.named.modifySlot fun d _ => hname d, ?_⟩
  intro key e hget
  rw [h.wellFormed.get?_modifySlot] at hget
  split at hget
  · obtain ⟨d, hd, rfl⟩ := Option.map_eq_some_iff.mp hget
    rw [h.latest hd]
    exact congrArg (fun t => some t.content) (hf d).symm
  · exact h.latest hget

theorem follows_ofList (ds : List Document) : (ofList ds).Follows (ds.map Document.toText) := by
  induction ds using List.reverseRecOn with
  | nil => exact .empty _
  | append_singleton ds d ih =>
      rw [ofList_concat, List.map_append]
      exact ih.insert d

theorem Follows.latest_of_mem (h : s.Follows log) (hd : d ∈ s.documents) :
    NamedText.latest? log d.name = some d.content :=
  h.latest (h.named.get?_name h.wellFormed hd)

/-- The texts of a set are told by its keys and the log. -/
theorem Follows.toTexts_eq (h : s.Follows log) : s.toTexts.map some =
    s.keys.map fun name => (NamedText.latest? log name).map (NamedText.mk name) := by
  rw [← show s.names = s.keys from h.named, toTexts, names, List.map_map, List.map_map]
  refine List.map_congr_left fun d hd => ?_
  simp [Document.toText, h.latest_of_mem hd]

end DocumentSet

end SourceDesk
