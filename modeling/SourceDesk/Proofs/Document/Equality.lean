import Mathlib.Data.List.Forall2
import SourceDesk.Proofs.Document.Changes

/-! Equality of document sets. It compares the index as well as the documents; but where nobody
changed a name the documents tell the index, so sets are equal when their documents are, one
after the other, and what was put in and replaced on the way does not show. -/
namespace SourceDesk

/-! ### Equal documents -/

/-- Equal documents. Their paths may be spelled in two ways as long as the components agree. -/
@[mk_iff]
structure Document.Alike (d e : Document) : Prop where
  name : d.name = e.name
  content : d.content = e.content
  encoding : d.encoding = e.encoding
  dirty : d.dirty = e.dirty
  path : d.path.map Path.components = e.path.map Path.components

theorem Document.same_iff {d e : Document} : d.same e = true ↔ d.Alike e := by
  obtain ⟨name, path, content, encoding, dirty⟩ := d
  obtain ⟨name', path', content', encoding', dirty'⟩ := e
  cases path <;> cases path' <;> simp [same, alike_iff, Path.same, and_assoc]

namespace DocumentSet

variable {s t : DocumentSet} {xs ys : List Document}

/-! ### Equal sets -/

/-- Indexes that give the same keys the same slots have the keys in the same order. -/
theorem WellFormed.sameIndex_iff (hs : s.WellFormed) (ht : t.WellFormed) :
    s.sameIndex t = true ↔ s.keys = t.keys := by
  have hlength (u : DocumentSet) : u.keys.length = u.index.length := List.length_map _
  simp only [sameIndex, Bool.and_eq_true, beq_iff_eq, List.all_eq_true, Prod.forall,
    hs.mem_index_iff, ht.slot?_eq_some_iff]
  constructor
  · rintro ⟨hsize, hslots⟩
    refine List.ext_getElem (by rw [hlength, hlength, hsize]) fun i hi hi' => ?_
    have hkey := hslots s.keys[i] i (List.getElem?_eq_getElem hi)
    exact (List.getElem?_eq_some_iff.mp hkey).2.symm
  · intro hkeys
    refine ⟨by rw [← hlength, ← hlength, hkeys], fun key slot hkey => ?_⟩
    rwa [← hkeys]

theorem WellFormed.same_iff (hs : s.WellFormed) (ht : t.WellFormed) :
    s.same t = true ↔
      s.keys = t.keys ∧ List.Forall₂ Document.Alike s.documents t.documents := by
  simp only [same, Bool.and_eq_true, beq_iff_eq, List.all_eq_true, Prod.forall, Document.same_iff,
    hs.sameIndex_iff ht, and_assoc, List.forall₂_iff_zip]

/-- Where names are keys, equal documents make an equal index. -/
theorem Named.same_iff (hsn : s.Named) (htn : t.Named) (hs : s.WellFormed) (ht : t.WellFormed) :
    s.same t = true ↔ List.Forall₂ Document.Alike s.documents t.documents := by
  rw [hs.same_iff ht, and_iff_right_iff_imp]
  intro halike
  have hnames : List.Forall₂ (· = ·) s.names t.names := by
    rw [names, names, List.forall₂_map_left_iff, List.forall₂_map_right_iff]
    exact halike.imp fun _ _ h => h.name
  rw [← show s.names = s.keys from hsn, ← show t.names = t.keys from htn]
  exact List.forall₂_eq_eq_eq ▸ hnames

/-- With the same keys, the documents of two sets are related slot by slot if they are related
key by key. -/
theorem WellFormed.forall₂_iff (hs : s.WellFormed) (ht : t.WellFormed) (hkeys : s.keys = t.keys)
    {R : Document → Document → Prop} :
    List.Forall₂ R s.documents t.documents ↔ ∀ key, Option.Rel R (s.get? key) (t.get? key) := by
  constructor
  · intro h key
    by_cases hkey : key ∈ s.keys
    · obtain ⟨i, hi, rfl⟩ := List.getElem_of_mem hkey
      have hslot : s.keys[i]? = some s.keys[i] := List.getElem?_eq_getElem hi
      have hsi : i < s.documents.length := hs.length_eq ▸ hi
      have hti : i < t.documents.length := h.length_eq ▸ hsi
      rw [hs.get?_of_slot hslot, ht.get?_of_slot (by rw [← hkeys, hslot]),
        List.getElem?_eq_getElem hsi, List.getElem?_eq_getElem hti]
      exact .some (h.get hsi hti)
    · rw [hs.get?_eq_none_iff.mpr hkey, ht.get?_eq_none_iff.mpr (hkeys ▸ hkey)]
      exact .none
  · intro h
    have hlength : s.documents.length = t.documents.length := by
      rw [← hs.length_eq, ← ht.length_eq, hkeys]
    refine List.forall₂_iff_get.mpr ⟨hlength, fun i hsi hti => ?_⟩
    have hi : i < s.keys.length := hs.length_eq ▸ hsi
    have hslot : s.keys[i]? = some s.keys[i] := List.getElem?_eq_getElem hi
    have hrel := h s.keys[i]
    rw [hs.get?_of_slot hslot, ht.get?_of_slot (by rw [← hkeys, hslot]),
      List.getElem?_eq_getElem hsi, List.getElem?_eq_getElem hti] at hrel
    cases hrel with
    | some hrel => exact hrel

/-! ### Sets that are collected -/

theorem WellFormed.ext_documents (hs : s.WellFormed) (ht : t.WellFormed) (hkeys : s.keys = t.keys)
    (hdocuments : s.documents = t.documents) : s = t :=
  hs.ext ht hkeys fun key => Option.ext fun d => by
    rw [hs.get?_eq_some_iff, ht.get?_eq_some_iff, hkeys, hdocuments]

/-- The documents of a set are those under its keys, in the order of the keys. -/
theorem WellFormed.map_some_documents (h : s.WellFormed) :
    s.documents.map some = s.keys.map s.get? := by
  refine List.ext_getElem? fun i => ?_
  rw [List.getElem?_map, List.getElem?_map]
  cases hkey : s.keys[i]? with
  | none =>
      have hout := List.getElem?_eq_none_iff.mp hkey
      rw [h.length_eq] at hout
      rw [List.getElem?_eq_none hout, Option.map_none, Option.map_none]
  | some key =>
      have hi : i < s.documents.length := h.length_eq ▸ (List.getElem?_eq_some_iff.mp hkey).1
      rw [Option.map_some, h.get?_of_slot hkey, List.getElem?_eq_getElem hi, Option.map_some]

theorem named_ofList (xs : List Document) : (ofList xs).Named :=
  named_empty.insertAll wellFormed_empty xs

/-- A set whose names nobody changed can be told by its documents, the index included. -/
theorem Named.ofList_documents (hn : s.Named) (h : s.WellFormed) : ofList s.documents = s := by
  have hnodup : (s.documents.map Document.name).Nodup := by
    rw [show s.documents.map Document.name = s.keys from hn]
    exact h.nodup
  refine (wellFormed_ofList _).ext_documents h ?_ (DocumentSet.documents_ofList hnodup)
  rw [← show (ofList s.documents).names = (ofList s.documents).keys from named_ofList _, names,
    DocumentSet.documents_ofList hnodup, ← show s.names = s.keys from hn, names]

/-- The last document of a list with a name. -/
def last? (xs : List Document) (name : String) : Option Document :=
  (xs.filter fun d => d.name = name).getLast?

theorem ofList_same_iff : (ofList xs).same (ofList ys) = true ↔
    (xs.map Document.name).eraseDups = (ys.map Document.name).eraseDups ∧
      ∀ name, Option.Rel Document.Alike (last? xs name) (last? ys name) := by
  rw [(wellFormed_ofList xs).same_iff (wellFormed_ofList ys), keys_ofList, keys_ofList]
  refine and_congr_right fun hkeys => ?_
  rw [(wellFormed_ofList xs).forall₂_iff (wellFormed_ofList ys) (by rwa [keys_ofList, keys_ofList])]
  simp only [get?_ofList, last?]

/-- What is collected from a list are its names, each where it came first with the last document
that it has there; two lists that agree in that make equal sets. A set that was built by
insertions and by changes that keep the names is collected again from its documents, and two
such sets are equal exactly if their documents are. -/
theorem changed_collected (xs ys : List Document) (cs ds : List Change)
    (hcs : empty.NamesKept cs) (hds : empty.NamesKept ds) :
    let s := empty.changed cs
    let t := empty.changed ds
    ((ofList xs).names = (xs.map Document.name).eraseDups ∧
      (ofList xs).documents.map some = (xs.map Document.name).eraseDups.map (last? xs) ∧
      ∀ name, (ofList xs).get? name = last? xs name) ∧
    ofList s.documents = s ∧
    (s.same t = true ↔ List.Forall₂ Document.Alike s.documents t.documents) ∧
    ((ofList xs).same (ofList ys) = true ↔
      (xs.map Document.name).eraseDups = (ys.map Document.name).eraseDups ∧
        ∀ name, Option.Rel Document.Alike (last? xs name) (last? ys name)) := by
  intro s t
  have hs : s.WellFormed := wellFormed_empty.changed cs
  have ht : t.WellFormed := wellFormed_empty.changed ds
  have hsn : s.Named := named_empty.changed wellFormed_empty hcs
  have htn : t.Named := named_empty.changed wellFormed_empty hds
  refine ⟨⟨?_, ?_, get?_ofList xs⟩, hsn.ofList_documents hs, hsn.same_iff htn hs ht,
    ofList_same_iff⟩
  · rw [show (ofList xs).names = (ofList xs).keys from named_ofList xs, keys_ofList]
  · rw [(wellFormed_ofList xs).map_some_documents, keys_ofList]
    exact List.map_congr_left fun name _ => get?_ofList xs name

/-- An edit in place and a replacement lead to equal sets, and so does another spelling of a path. -/
theorem changed_collected_edited :
    let a : Document := ⟨"a", some (.ofText "x/y"), "1", "utf-8", false⟩
    let b : Document := ⟨"b", none, "2", "utf-8", false⟩
    let a' : Document := ⟨"a", some (.ofText "x//y/."), "3", "utf-8", true⟩
    let cs : List Change := [.insert a, .insert b, .modify "a" fun d => d.commit "3"]
    let ds : List Change := [.insert { b with name := "a" }, .insert b, .insert a']
    empty.NamesKept cs ∧ empty.NamesKept ds ∧
      (empty.changed cs).same (empty.changed ds) = true ∧
      ofList (empty.changed cs).documents = empty.changed cs ∧
      (ofList [b, a, a']).names = ["b", "a"] ∧ last? [b, a, a'] "a" = some a' := by
  intro a b a' cs ds
  have hcs : empty.NamesKept cs := by
    refine ⟨trivial, trivial, fun d _ => ?_, trivial⟩
    simp only [Document.commit]
    split <;> rfl
  have hds : empty.NamesKept ds := ⟨trivial, trivial, trivial, trivial⟩
  obtain ⟨⟨hnames, -, -⟩, hcollect, hsame, -⟩ := changed_collected [b, a, a'] [] cs ds hcs hds
  refine ⟨hcs, hds, hsame.mpr ?_, hcollect, hnames, by decide⟩
  exact .cons (Document.same_iff.mp (by decide)) (.cons (Document.same_iff.mp (by decide)) .nil)

end DocumentSet

end SourceDesk
