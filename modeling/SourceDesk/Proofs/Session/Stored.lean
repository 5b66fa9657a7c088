import SourceDesk.Proofs.Session.Saving
import SourceDesk.Proofs.Storage.FileSystem
import SourceDesk.Proofs.Text.Charset

/-! Clean means stored. The file of a source without unsaved changes holds what the
source was read from or what was written for it last, unless a target was written over
it since. What a reader makes of the file then is a matter of its bytes alone. -/
namespace SourceDesk

namespace Deed

/-- Whether a deed reads a source from a path or writes a source to it. -/
def refreshes (p : Path) : Deed → Bool
  | .loaded q _ => q = p
  | .written seat q _ => seat.shelf = .sources ∧ q = p
  | _ => false

/-- Whether a deed writes a target. -/
def writesTarget : Deed → Bool
  | .written seat _ _ => seat.shelf = .targets
  | _ => false

/-- A target was written to a path, and the file was neither read nor written for a
source since then. -/
def Overwritten (p : Path) (ds : List Deed) : Prop :=
  ∃ before slot data after, ds = before ++ .written ⟨.targets, slot⟩ p data :: after ∧
    ∀ d ∈ after, d.refreshes p = false

variable {p : Path} {ds : List Deed} {d : Deed}

theorem overwritten_written {slot : Nat} {data : Bytes} :
    Overwritten p (ds ++ [.written ⟨.targets, slot⟩ p data]) :=
  ⟨ds, slot, data, [], rfl, by simp⟩

theorem Overwritten.concat (h : Overwritten p ds) (hd : d.refreshes p = false) :
    Overwritten p (ds ++ [d]) := by
  obtain ⟨before, slot, data, after, rfl, hafter⟩ := h
  refine ⟨before, slot, data, after ++ [d], by simp, fun e he => ?_⟩
  rcases List.mem_append.mp he with he | he
  · exact hafter e he
  · rwa [List.mem_singleton.mp he]

theorem not_overwritten (h : ∀ d ∈ ds, d.writesTarget = false) : ¬Overwritten p ds := by
  rintro ⟨before, slot, data, after, rfl, -⟩
  exact absurd (h (.written ⟨.targets, slot⟩ p data) (by simp)) (by simp [writesTarget])

/-- Only a target can be written over a file. -/
theorem Overwritten.of_append {es : List Deed} (h : Overwritten p (ds ++ es))
    (hes : ∀ d ∈ es, d.writesTarget = false) : Overwritten p ds := by
  obtain ⟨before, slot, data, after, heq, hafter⟩ := h
  have htarget : (Deed.written ⟨.targets, slot⟩ p data).writesTarget = true := rfl
  have hnot : .written ⟨.targets, slot⟩ p data ∉ es := fun hmem => by
    simp [hes _ hmem] at htarget
  rcases List.append_eq_append_iff.mp heq with ⟨mid, -, hright⟩ | ⟨mid, hleft, hright⟩
  · exact absurd (by simp [hright]) hnot
  · cases mid with
    | nil => exact absurd (by simp [← show _ = es from hright]) hnot
    | cons x mid =>
        obtain ⟨rfl, rfl⟩ := List.cons.inj hright
        exact ⟨before, slot, data, mid, hleft, fun d hd => hafter d (by simp [hd])⟩

end Deed

/-! ### Documents and their files -/

/-- A source that is called after its path, in a charset that reading comes to. -/
structure Document.Filed (d : Document) (key : String) (p : Path) : Prop where
  name : d.name = key
  path : d.path = some p
  documentName : p.documentName = key
  encoding : d.encoding = "utf-8" ∨ d.encoding = "windows-1252"

/-- A file that is not refused is loaded. -/
theorem load_one {σ : Type} {reader : Reader σ} {store : σ} {s : Session} {p : Path}
    (h : ∀ reason, (reader store p).2 ≠ .error reason) :
    ∃ store' data, reader store p = (store', .ok data) ∧
      (s.loadFrom reader store [p]).2.result = .ok [p.documentName] ∧
      (s.loadFrom reader store [p]).2.session.sources =
        s.sources.insert (.loaded p (.decode data)) := by
  rcases hread : reader store p with ⟨store', reason | data⟩
  · exact absurd (by rw [hread]) (h reason)
  · refine ⟨store', data, rfl, ?_⟩
    simp only [Session.loadFrom, Session.loadEach, hread]
    exact ⟨rfl, rfl⟩

section

variable [FurtherCharsets]

/-- Bytes that a document was read from, or that were written for it. -/
def Document.Stored (d : Document) (data : Bytes) : Prop :=
  DecodedText.decode data = ⟨d.content, d.encoding⟩ ∨ encodeText? d.content d.encoding = some data

/-- What is read again from a stored document. -/
theorem Document.Stored.decode_iff {d : Document} {data : Bytes} (h : d.Stored data)
    (henc : d.encoding = "utf-8" ∨ d.encoding = "windows-1252") :
    (DecodedText.decode data).content = d.content ↔ ¬Misread d.encoding d.content data := by
  rcases h with hread | hwritten
  · have hsame : (DecodedText.decode data).content = d.content := by rw [hread]
    exact ⟨fun _ hmis => (decode_encode_iff henc hmis.1).mp hsame hmis, fun _ => hsame⟩
  · exact decode_encode_iff henc hwritten

variable {σ : Type} (fs : FileSystem σ)

/-- A source whose file holds it while it is clean and nobody has written over it. -/
def Document.Safe (ds : List Deed) (store : σ) (key : String) (d : Document) : Prop :=
  ∃ p, d.Filed key p ∧ (d.dirty = false → ¬Deed.Overwritten p ds →
    ∃ data, fs.file? store p = some data ∧ d.Stored data)

/-- All sources are safe. -/
structure Session.Safe (ds : List Deed) (store : σ) (s : Session) : Prop where
  wellFormed : s.WellFormed
  sources : ∀ {key d}, s.sources.get? key = some d → d.Safe fs ds store key

variable {fs} {ds : List Deed} {store store' : σ} {key : String} {d : Document} {x : Deed}
variable {s t : Session}

/-- A deed that does not concern the file of a document. -/
theorem Document.Safe.move (h : d.Safe fs ds store key)
    (hfile : ∀ p, p.documentName = key → ¬Deed.Overwritten p (ds ++ [x]) →
      x.refreshes p = false ∧ fs.file? store' p = fs.file? store p) :
    d.Safe fs (ds ++ [x]) store' key := by
  obtain ⟨p, hfiled, hstored⟩ := h
  refine ⟨p, hfiled, fun hclean hover => ?_⟩
  obtain ⟨hx, hsame⟩ := hfile p hfiled.documentName hover
  obtain ⟨data, hdata, hd⟩ := hstored hclean fun ho => hover (ho.concat hx)
  exact ⟨data, by rw [hsame, hdata], hd⟩

theorem Session.Safe.elsewhere (h : s.Safe fs ds store) (ht : t.WellFormed)
    (hsources : t.sources = s.sources)
    (hfile : ∀ p, ¬Deed.Overwritten p (ds ++ [x]) →
      x.refreshes p = false ∧ fs.file? store' p = fs.file? store p) :
    t.Safe fs (ds ++ [x]) store' := by
  refine ⟨ht, fun {key d} hget => ?_⟩
  rw [hsources] at hget
  exact (h.sources hget).move fun p _ => hfile p

theorem Session.Safe.refuse (h : s.Safe fs ds store)
    (hr : Refuses fs.reader fs.storage store store') : s.Safe fs ds store' := by
  have hfile : fs.file? store' = fs.file? store := by
    rcases hr with ⟨p, reason, hread⟩ | ⟨p, data, reason, hwrite⟩
    · exact fs.read_error hread
    · exact fs.write_error hwrite
  refine ⟨h.wellFormed, fun {key d} hget => ?_⟩
  obtain ⟨p, hfiled, hstored⟩ := h.sources hget
  exact ⟨p, hfiled, by rwa [hfile]⟩

/-! ### Deeds -/

theorem Session.Safe.load (h : s.Safe fs ds store) {p : Path} {data : Bytes}
    (hread : fs.reader store p = (store', .ok data)) :
    (s.after (.loaded p data)).Safe fs (ds ++ [.loaded p data]) store' := by
  obtain ⟨hfile, hsame⟩ := fs.read_ok hread
  have hsources : s.sources.WellFormed := h.wellFormed .sources
  refine ⟨h.wellFormed.after_of nofun, fun {key d} hget => ?_⟩
  simp only [after, hsources.get?_insert] at hget
  split at hget
  · rename_i hkey
    obtain rfl := Option.some.inj hget
    refine ⟨p, ⟨hkey.symm, rfl, hkey.symm, encoding_decode data⟩, fun _ _ => ⟨data, ?_, .inl rfl⟩⟩
    rw [hsame, hfile]
  · rename_i hkey
    refine (h.sources hget).move fun q hq _ => ⟨?_, by rw [hsame]⟩
    have hne : p ≠ q := by
      rintro rfl
      exact hkey hq.symm
    simp [Deed.refreshes, hne]

theorem Session.Safe.commit (h : s.Safe fs ds store) (name content : String) :
    (s.after (.committed .sources name content)).Safe fs
      (ds ++ [.committed .sources name content]) store := by
  have hsources : s.sources.WellFormed := h.wellFormed .sources
  refine ⟨h.wellFormed.after_of nofun, fun {key d} hget => ?_⟩
  simp only [after, setShelf, shelf, hsources.get?_modify] at hget
  split at hget
  · rename_i hkey
    subst hkey
    obtain ⟨e, he, rfl⟩ := Option.map_eq_some_iff.mp hget
    unfold Document.commit
    split
    · exact (h.sources he).move fun _ _ _ => ⟨rfl, rfl⟩
    · -- another text: the document is dirty, and nothing is claimed of its file
      obtain ⟨p, hfiled, -⟩ := h.sources he
      exact ⟨p, ⟨hfiled.name, hfiled.path, hfiled.documentName, hfiled.encoding⟩,
        fun hclean => by simp at hclean⟩
  · exact (h.sources hget).move fun _ _ _ => ⟨rfl, rfl⟩

theorem Session.Safe.write (h : s.Safe fs ds store) {slot : Nat} {p : Path} {data : Bytes}
    (hp : Deed.Possible s (.written ⟨.sources, slot⟩ p data))
    (hwrite : fs.storage.write store p data = (store', .ok ())) :
    (s.after (.written ⟨.sources, slot⟩ p data)).Safe fs
      (ds ++ [.written ⟨.sources, slot⟩ p data]) store' := by
  obtain ⟨hfile, hothers⟩ := fs.write_ok hwrite
  have hsources : s.sources.WellFormed := h.wellFormed .sources
  refine ⟨h.wellFormed.after hp, fun {key d} hget => ?_⟩
  obtain ⟨e, hseat, henc, hpath⟩ := hp
  have hslot : s.sources.documents[slot]? = some e := hseat
  simp only [after, setShelf, shelf, hsources.get?_modifySlot] at hget
  split at hget
  · rename_i hkey
    rw [hsources.get?_of_slot hkey, hslot] at hget
    obtain rfl := Option.some.inj hget
    obtain ⟨q, hfiled, -⟩ := h.sources ((hsources.get?_of_slot hkey).trans hslot)
    obtain rfl : p = q := Option.some.inj ((hpath rfl).symm.trans hfiled.path)
    exact ⟨p, ⟨hfiled.name, rfl, hfiled.documentName, hfiled.encoding⟩,
      fun _ _ => ⟨data, hfile, .inr henc⟩⟩
  · rename_i hkey
    refine (h.sources hget).move fun q hq _ => ?_
    -- the document that was written is called after its path, so this one has another
    have hne : q ≠ p := by
      rintro rfl
      have hlt : slot < s.sources.keys.length :=
        hsources.length_eq ▸ (List.getElem?_eq_some_iff.mp hslot).1
      have hkey' : s.sources.keys[slot]? = some s.sources.keys[slot] := List.getElem?_eq_getElem hlt
      obtain ⟨q', hfiled, -⟩ := h.sources ((hsources.get?_of_slot hkey').trans hslot)
      obtain rfl : q = q' := Option.some.inj ((hpath rfl).symm.trans hfiled.path)
      rw [← hfiled.documentName, hq] at hkey'
      exact hkey hkey'
    exact ⟨by simp [Deed.refreshes, Ne.symm hne], hothers q hne⟩

theorem Session.Safe.after (h : s.Safe fs ds store) (hp : x.Possible s)
    (hm : x.Moves fs.reader fs.storage store store') : (s.after x).Safe fs (ds ++ [x]) store' := by
  have ht := h.wellFormed.after hp
  cases x with
  | loaded p data => exact h.load hm
  | committed which name content =>
      obtain rfl : store' = store := hm
      cases which with
      | sources => exact h.commit name content
      | targets => exact h.elsewhere ht rfl fun _ _ => ⟨rfl, rfl⟩
  | written seat p data =>
      obtain ⟨which, slot⟩ := seat
      cases which with
      | sources => exact h.write hp hm
      | targets =>
          refine h.elsewhere ht rfl fun q hover => ⟨by simp [Deed.refreshes], ?_⟩
          refine (fs.write_ok hm).2 q ?_
          rintro rfl
          exact hover Deed.overwritten_written
  | replaced targets =>
      obtain rfl : store' = store := hm
      exact h.elsewhere ht rfl fun _ _ => ⟨rfl, rfl⟩
  | translated language namespaceHint o =>
      obtain rfl : store' = store := hm
      exact h.elsewhere ht (Session.sources_install _ o) fun _ _ => ⟨rfl, rfl⟩
  | translatedAgain catalog o =>
      obtain rfl : store' = store := hm
      exact h.elsewhere ht (Session.sources_install _ o) fun _ _ => ⟨rfl, rfl⟩

theorem Session.Safe.course {es : List Deed} (h : s.Safe fs ds store)
    (hc : Course fs.reader fs.storage store s es store' t) : t.Safe fs (ds ++ es) store' :=
  hc.induction (motive := fun ds store s => s.Safe fs ds store)
    (fun _ _ _ _ hr h => h.refuse hr) (fun _ _ _ _ _ hp hm h => h.after hp hm) ds h

theorem run_safe (fs : FileSystem σ) (store : σ) (ops : List Operation) {r : Run σ}
    (hr : run fs.reader fs.storage store .empty ops = r) : r.session.Safe fs r.deeds r.store := by
  subst hr
  have hempty : Session.empty.Safe fs [] store :=
    ⟨Session.wellFormed_empty, by simp [Session.empty]⟩
  exact hempty.course (run_course fs.reader fs.storage ops store .empty)

/-! ### Saving and loading again -/

variable (storage : Storage σ)

theorem saveEach_deeds (which : Shelf) (docs : List Document) (slot : Nat) (store : σ) {x : Deed}
    (h : x ∈ (Session.saveEach storage which slot store docs).events.filterMap Event.deed?) :
    ∃ i p data, x = .written ⟨which, i⟩ p data := by
  induction docs generalizing slot store with
  | nil => simp [Session.saveEach] at h
  | cons d docs ih =>
      simp only [Session.saveEach] at h
      split at h
      · exact ih _ _ h
      · split at h
        · exact ih _ _ h
        · rename_i p _
          rcases writeTo_cases storage d store ⟨which, slot⟩ p rfl with
            ⟨failure, hres, hevents, -⟩ | ⟨data, -, hres, hevents, -⟩
          · simp only [hres, hevents] at h
            cases h
          · simp only [hres, List.filterMap_append, hevents, List.singleton_append,
              List.mem_cons] at h
            rcases h with rfl | h
            · exact ⟨slot, p, data, rfl⟩
            · exact ih _ _ h

theorem save_deeds {which : Shelf} {x : Deed}
    (h : x ∈ (s.save storage store which).2.events.filterMap Event.deed?) :
    ∃ i p data, x = .written ⟨which, i⟩ p data := by
  rw [(save_eq storage s store which rfl).2.2] at h
  exact saveEach_deeds storage which (s.shelf which).documents 0 store h

theorem save_sources {count : Nat} (h : (s.save storage store .sources).2.result = .ok count) :
    (s.save storage store .sources).2.session.sources = s.sources.map .saved := by
  rw [(Session.save_ok h).2]
  rfl

/-! ### What is read again -/

theorem Session.Safe.clean (h : s.Safe fs ds store) (hget : s.sources.get? key = some d)
    (hclean : d.dirty = false) :
    ∃ p, d.path = some p ∧ (¬Deed.Overwritten p ds → ∃ data, fs.file? store p = some data ∧
      ((DecodedText.decode data).content = d.content ↔ ¬Misread d.encoding d.content data)) := by
  obtain ⟨p, hfiled, hstored⟩ := h.sources hget
  refine ⟨p, hfiled.path, fun hover => ?_⟩
  obtain ⟨data, hdata, hd⟩ := hstored hclean hover
  exact ⟨data, hdata, hd.decode_iff hfiled.encoding⟩

/-- A source that was edited and saved, and what its file holds then. -/
theorem Session.Safe.edit (h : s.Safe fs ds store) (hget : s.sources.get? key = some d)
    {p : Path} (hpath : d.path = some p) (hover : ¬Deed.Overwritten p ds) {text : String}
    {count : Nat} (hsave : ((s.commit .sources key text).session.save fs.storage store
      .sources).2.result = .ok count) :
    let saved := (s.commit .sources key text).session.save fs.storage store .sources
    saved.2.session.sources.WellFormed ∧ ∃ data, fs.file? saved.1 p = some data ∧
      ((DecodedText.decode data).content = text ↔ ¬Misread d.encoding text data) := by
  intro saved
  have hcommit := h.commit key text
  rw [← s.commit_session] at hcommit
  have hsafe := hcommit.course (save_course fs.reader fs.storage _ store .sources)
  have hsources : s.sources.WellFormed := h.wellFormed .sources
  have hsaved : saved.2.session.sources.get? key = some (d.commit text).saved := by
    rw [show saved.2.session.sources = _ from save_sources fs.storage hsave, DocumentSet.get?_map,
      s.commit_session]
    simp [Session.after, Session.setShelf, Session.shelf, hsources.get?_modify, hget]
  -- whether the text was another one or not, the document is clean in the end
  have hdoc : (d.commit text).saved = { d with content := text, dirty := false } := by
    by_cases hsame : d.content = text
    · subst hsame
      simp [Document.commit, Document.saved, hpath]
    · simp [Document.commit, Document.saved, hsame, hpath]
  rw [hdoc] at hsaved
  obtain ⟨q, hq, hstored⟩ := hsafe.clean hsaved rfl
  obtain rfl : p = q := Option.some.inj (hpath.symm.trans hq)
  refine ⟨hsafe.wellFormed .sources, hstored fun ho => hover ((ho.of_append ?_).of_append ?_)⟩
  · intro x hx
    obtain ⟨i, q, data, rfl⟩ := save_deeds fs.storage hx
    rfl
  · simp [Deed.writesTarget]

/-- A source without unsaved changes is what its file is read as, and so is a source that
was edited, saved and loaded again, as long as no target is written over the file. The
exceptions are texts that start with the mark, in UTF-8, and texts in windows-1252 that
are not all ASCII and look like UTF-8: these and no others are read as something else. -/
theorem run_clean_stored (fs : FileSystem σ) (store : σ) (ops : List Operation) :
    let r := run fs.reader fs.storage store .empty ops
    (∀ d ∈ r.session.sources.documents, d.dirty = false →
      ∃ p, d.path = some p ∧ (¬Deed.Overwritten p r.deeds →
        ∃ data, fs.file? r.store p = some data ∧
          ((DecodedText.decode data).content = d.content ↔ ¬Misread d.encoding d.content data))) ∧
    ∀ d ∈ r.session.sources.documents, ∃ p, d.path = some p ∧ (¬Deed.Overwritten p r.deeds →
      ∀ text count,
        let edited := (r.session.commit .sources d.name text).session
        let saved := edited.save fs.storage r.store .sources
        let loaded := saved.2.session.loadFrom fs.reader saved.1 [p]
        saved.2.result = .ok count → (∀ reason, (fs.reader saved.1 p).2 ≠ .error reason) →
        loaded.2.result = .ok [d.name] ∧ ∃ data e, fs.file? saved.1 p = some data ∧
          loaded.2.session.sources.get? d.name = some e ∧
          (e.content = text ↔ ¬Misread d.encoding text data)) := by
  intro r
  have hsafe : r.session.Safe fs r.deeds r.store := run_safe fs store ops rfl
  have hget : ∀ d ∈ r.session.sources.documents, r.session.sources.get? d.name = some d := by
    intro d hd
    obtain ⟨key, hkey⟩ := (hsafe.wellFormed .sources).mem_documents_iff.mp hd
    obtain ⟨p, hfiled, -⟩ := hsafe.sources hkey
    rw [hfiled.name]
    exact hkey
  refine ⟨fun d hd => hsafe.clean (hget d hd), fun d hd => ?_⟩
  obtain ⟨p, hfiled, -⟩ := hsafe.sources (hget d hd)
  refine ⟨p, hfiled.path, fun hover text count => ?_⟩
  intro edited saved loaded hsave hread
  obtain ⟨hwell, data, hdata, hiff⟩ := hsafe.edit (hget d hd) hfiled.path hover hsave
  obtain ⟨store', data', hread, hresult, hloaded⟩ := load_one (s := saved.2.session) hread
  obtain rfl : data = data' := Option.some.inj (hdata.symm.trans (fs.read_ok hread).1)
  rw [hfiled.documentName] at hresult
  refine ⟨hresult, data, .loaded p (.decode data), hdata, ?_, hiff⟩
  rw [show loaded.2.session.sources = _ from hloaded, hwell.get?_insert]
  exact if_pos hfiled.documentName.symm

end

attribute [local instance] FurtherCharsets.none in
/-- An edit in windows-1252 that is kept. -/
theorem run_clean_stored_accent :
    let fs := Memory.fileSystem
    let files := Memory.ofFiles [(.ofText "a", [0x63, 0xE9])]
    let ops : List Operation := [.load [.ofText "a"], .commit .sources "a" "cé!", .save .sources]
    let r := run fs.reader fs.storage files .empty ops
    ∃ data, fs.file? r.store (.ofText "a") = some data ∧
      (DecodedText.decode data).content = "cé!" := by
  intro fs files ops r
  have hmem : (⟨"a", some (.ofText "a"), "cé!", "windows-1252", false⟩ : Document) ∈
      r.session.sources.documents := by decide +kernel
  obtain ⟨p, hp, hstored⟩ := (run_clean_stored fs files ops).1 _ hmem rfl
  obtain rfl : Path.ofText "a" = p := Option.some.inj hp
  have hover : ¬Deed.Overwritten (.ofText "a") r.deeds := Deed.not_overwritten (by decide +kernel)
  obtain ⟨data, hdata, hiff⟩ := hstored hover
  refine ⟨data, hdata, hiff.mpr ?_⟩
  obtain rfl : [0x63, 0xE9, 0x21] = data :=
    Option.some.inj ((show fs.file? r.store (.ofText "a") = some [0x63, 0xE9, 0x21] by
      decide +kernel).symm.trans hdata)
  decide

/-- Whether the file of every source without unsaved changes is read as the source. -/
def Run.Faithful (r : Run Memory) : Prop :=
  ∀ d ∈ r.session.sources.documents, d.dirty = false →
    (d.path.bind fun p => (r.store.files.lookup p).map fun data =>
      (DecodedText.decode data).content) = some d.content

instance (r : Run Memory) : Decidable r.Faithful :=
  inferInstanceAs (Decidable (∀ d ∈ _, _ → _))

attribute [local instance] FurtherCharsets.none in
/-- A text that starts with the mark, a text that looks like UTF-8 in windows-1252, and a
target that is written over the file of a source. -/
theorem run_clean_misread :
    let go (data : Bytes) (ops : List Operation) :=
      run Memory.fileSystem.reader Memory.fileSystem.storage (.ofFiles [(.ofText "a", data)])
        .empty (.load [.ofText "a"] :: ops)
    ¬(go [0x41] [.commit .sources "a" "\uFEFFb", .save .sources]).Faithful ∧
      ¬(go [0xE9] [.commit .sources "a" "Ã©", .save .sources]).Faithful ∧
      ¬(go [0x41] [.translate (fun _ => ⟨.targets [⟨"t", "b"⟩], []⟩) "go" "",
        .saveTargetAs "t" (.ofText "a")]).Faithful := by
  decide +kernel

end SourceDesk
