import SourceDesk.Proofs.Session.Course

/-! The mark of unsaved changes. What resets it for a document is that the document is
loaded, installed or written, and what sets it is a text that was another one. Documents
are followed through a run by shelf, slot and key. -/
namespace SourceDesk

/-- A document stands in a slot of a shelf, under a key. -/
def Session.Stands (s : Session) (which : Shelf) (slot : Nat) (key : String)
    (d : Document) : Prop :=
  (s.shelf which).keys[slot]? = some key ∧ (s.shelf which).documents[slot]? = some d

/-- Whether a deed loads, writes or installs what stands in a slot under a key. -/
def Deed.Resets (which : Shelf) (slot : Nat) (key : String) : Deed → Prop
  | .loaded p _ => which = .sources ∧ p.documentName = key
  | .written seat _ _ => seat = ⟨which, slot⟩
  | .replaced _ | .translated .. | .translatedAgain .. => which = .targets
  | .committed .. => False

namespace Turn

/-- Whether the document in a slot was loaded, written or installed in a turn. -/
def Resets (which : Shelf) (slot : Nat) (key : String) (t : Turn) : Prop :=
  ∃ d ∈ t.deeds, d.Resets which slot key

/-- Whether the turn was a commit that answered that it changed the document. -/
def Changes (which : Shelf) (key : String) (t : Turn) : Prop :=
  ∃ content, t.operation = .commit which key content ∧ t.result = .ok (.changed true)

/-- Whether the turn replaced the targets and the document in a slot was dirty then. -/
def InstallsDirty (which : Shelf) (slot : Nat) (t : Turn) : Prop :=
  which = .targets ∧ ∃ targets wellFormed d, t.operation = .replaceTargets targets wellFormed ∧
    targets.documents[slot]? = some d ∧ d.dirty = true

end Turn

/-- Whether a deed leaves what it resets clean, and nothing else changed. -/
def Deed.cleans : Deed → Bool
  | .committed .. | .replaced _ => false
  | _ => true

namespace Session

variable {s t : Session} {which : Shelf} {slot : Nat} {key : String} {d : Document}

theorem WellFormed.stands_iff (hs : s.WellFormed) : s.Stands which slot key d ↔
    (s.shelf which).keys[slot]? = some key ∧ (s.shelf which).get? key = some d := by
  unfold Stands
  constructor
  · rintro ⟨hkey, hd⟩
    exact ⟨hkey, by rw [(hs which).get?_of_slot hkey, hd]⟩
  · rintro ⟨hkey, hget⟩
    exact ⟨hkey, by rw [← (hs which).get?_of_slot hkey, hget]⟩

theorem stands_congr (h : t.shelf which = s.shelf which) :
    t.Stands which slot key d ↔ s.Stands which slot key d := by
  unfold Stands
  rw [h]

/-! ### Deeds -/

theorem stands_loaded (hs : s.WellFormed) {p : Path} {data : Bytes} (hkey : p.documentName ≠ key)
    (h : (s.after (.loaded p data)).Stands .sources slot key d) : s.Stands .sources slot key d := by
  have hw : (s.after (.loaded p data)).WellFormed := hs.after_of nofun
  rw [hw.stands_iff] at h
  obtain ⟨hslot, hget⟩ := h
  have hsources : s.sources.WellFormed := hs .sources
  simp only [after, shelf, hsources.get?_insert] at hslot hget
  have hname : key ≠ (Document.loaded p (.decode data)).name := Ne.symm hkey
  rw [if_neg hname] at hget
  refine hs.stands_iff.mpr ⟨?_, hget⟩
  rw [DocumentSet.keys_insert] at hslot
  split at hslot
  · exact hslot
  · rcases DocumentSet.getElem?_concat_eq_some_iff.mp hslot with hslot | ⟨-, heq⟩
    · exact hslot
    · exact absurd heq.symm hname

theorem dirty_loaded (hs : s.WellFormed) {p : Path} {data : Bytes} (hkey : p.documentName = key)
    (h : (s.after (.loaded p data)).Stands .sources slot key d) : d.dirty = false := by
  have hw : (s.after (.loaded p data)).WellFormed := hs.after_of nofun
  rw [hw.stands_iff] at h
  have hget := h.2
  have hsources : s.sources.WellFormed := hs .sources
  simp only [after, shelf, hsources.get?_insert] at hget
  rw [if_pos (show key = (Document.loaded p (.decode data)).name from hkey.symm)] at hget
  obtain rfl := Option.some.inj hget
  rfl

theorem stands_modifySlot {other : Shelf} {i : Nat} {f : Document → Document}
    (hne : (⟨other, i⟩ : Seat) ≠ ⟨which, slot⟩) :
    (s.setShelf other ((s.shelf other).modifySlot i f)).Stands which slot key d ↔
      s.Stands which slot key d := by
  by_cases hshelf : which = other
  · subst hshelf
    have hslot : i ≠ slot := fun h => hne (by rw [h])
    simp [Stands, DocumentSet.modifySlot, List.getElem?_modify_ne f _ hslot]
  · exact stands_congr (shelf_setShelf_of_ne hshelf)

theorem dirty_written {p : Path} {data : Bytes}
    (h : (s.after (.written ⟨which, slot⟩ p data)).Stands which slot key d) : d.dirty = false := by
  have hd := h.2
  simp only [after, shelf_setShelf, DocumentSet.modifySlot, List.getElem?_modify_eq] at hd
  obtain ⟨e, -, rfl⟩ := Option.map_eq_some_iff.mp hd
  rfl

theorem dirty_install {o : Outcome} (h : (s.install o).Stands .targets slot key d) :
    d.dirty = false := by
  obtain ⟨t, rfl⟩ := generated_of_mem_install (List.mem_of_getElem? h.2)
  rfl

/-- An attempt installs clean targets. -/
theorem stands_install {language : Option String} {namespaceHint : String} {o : Outcome}
    (h : (({ s with language, namespaceHint } : Session).install o).Stands which slot key d) :
    which = .targets ∧ d.dirty = false ∨ which ≠ .targets ∧ s.Stands which slot key d := by
  cases which with
  | sources =>
      have hsame : (({ s with language, namespaceHint } : Session).install o).shelf .sources =
          s.shelf .sources := sources_install _ o
      exact .inr ⟨by simp, (stands_congr hsame).mp h⟩
  | targets => exact .inl ⟨rfl, dirty_install h⟩

theorem after_stands (hs : s.WellFormed) {x : Deed} (hx : x.cleans = true)
    (h : (s.after x).Stands which slot key d) :
    x.Resets which slot key ∧ d.dirty = false ∨
      ¬x.Resets which slot key ∧ s.Stands which slot key d := by
  cases x with
  | loaded p data =>
      cases which with
      | sources =>
          by_cases hkey : p.documentName = key
          · exact .inl ⟨⟨rfl, hkey⟩, dirty_loaded hs hkey h⟩
          · exact .inr ⟨fun hr => hkey hr.2, stands_loaded hs hkey h⟩
      | targets => exact .inr ⟨by simp [Deed.Resets], h⟩
  | committed which name content => cases hx
  | written seat p data =>
      by_cases hseat : seat = ⟨which, slot⟩
      · subst hseat
        exact .inl ⟨rfl, dirty_written h⟩
      · exact .inr ⟨hseat, (stands_modifySlot hseat).mp h⟩
  | replaced targets => cases hx
  | translated language namespaceHint o => exact stands_install h
  | translatedAgain catalog o => exact stands_install h

/-! ### Commits -/

variable {content : String}

theorem commit_true_iff : (s.commit which key content).result = .ok true ↔
    ∃ d, (s.shelf which).get? key = some d ∧ d.content ≠ content := by
  unfold commit
  cases hget : (s.shelf which).get? key with
  | none => simp
  | some d => by_cases hsame : d.content = content <;> simp [hsame]

theorem commit_false_iff : (s.commit which key content).result = .ok false ↔
    ∃ d, (s.shelf which).get? key = some d ∧ d.content = content := by
  unfold commit
  cases hget : (s.shelf which).get? key with
  | none => simp
  | some d => by_cases hsame : d.content = content <;> simp [hsame]

theorem commit_notFound_iff : (s.commit which key content).result = .error (.notFound key) ↔
    (s.shelf which).get? key = none := by
  unfold commit
  cases hget : (s.shelf which).get? key with
  | none => simp
  | some d => by_cases hsame : d.content = content <;> simp [hsame]

/-- A commit that does not answer that it changed a document changed nothing. -/
theorem commit_session_eq (h : (s.commit which key content).result ≠ .ok true) :
    (s.commit which key content).session = s := by
  rw [commit_session, after, DocumentSet.modify_eq_self, setShelf_self]
  intro d hget
  by_cases hsame : d.content = content
  · simp [Document.commit, hsame]
  · exact absurd (commit_true_iff.mpr ⟨d, hget, hsame⟩) h

theorem stands_commit_of_ne {other : Shelf} {name : String} (hs : s.WellFormed)
    (hne : ¬(other = which ∧ name = key)) :
    (s.after (.committed other name content)).Stands which slot key d ↔
      s.Stands which slot key d := by
  have hw : (s.after (.committed other name content)).WellFormed := hs.after_of nofun
  by_cases hshelf : which = other
  · subst hshelf
    rw [hw.stands_iff, hs.stands_iff]
    simp only [after, shelf_setShelf, DocumentSet.keys_modify, (hs which).get?_modify]
    rw [if_neg fun heq : key = name => hne ⟨rfl, heq.symm⟩]
  · exact stands_congr (shelf_setShelf_of_ne hshelf)

theorem stands_commit (hs : s.WellFormed)
    (h : (s.after (.committed which key content)).Stands which slot key d) :
    ∃ e, s.Stands which slot key e ∧ d = e.commit content := by
  have hw : (s.after (.committed which key content)).WellFormed := hs.after_of nofun
  rw [hw.stands_iff] at h
  simp only [after, shelf_setShelf, DocumentSet.keys_modify, (hs which).get?_modify, if_true] at h
  obtain ⟨e, hget, rfl⟩ := Option.map_eq_some_iff.mp h.2
  exact ⟨e, hs.stands_iff.mpr ⟨h.1, hget⟩, rfl⟩

/-- What a commit answers and does: it changes the document under its name if the text is
another one, and nothing else ever. -/
structure Commits (s : Session) (which : Shelf) (name content : String) : Prop where
  changed : (s.commit which name content).result = .ok true ↔
    ∃ d, (s.shelf which).get? name = some d ∧ d.content ≠ content
  same : (s.commit which name content).result = .ok false ↔
    ∃ d, (s.shelf which).get? name = some d ∧ d.content = content
  notFound : (s.commit which name content).result = .error (.notFound name) ↔
    name ∉ (s.shelf which).keys
  kept : (s.commit which name content).result ≠ .ok true →
    (s.commit which name content).session = s
  own : ∀ d, (s.shelf which).get? name = some d → d.content ≠ content →
    ((s.commit which name content).session.shelf which).get? name =
      some { d with content, dirty := true }
  keys : ∀ other, ((s.commit which name content).session.shelf other).keys = (s.shelf other).keys
  others : ∀ other slot key d, ¬(which = other ∧ name = key) →
    ((s.commit which name content).session.Stands other slot key d ↔ s.Stands other slot key d)
  language : (s.commit which name content).session.language = s.language
  namespaceHint : (s.commit which name content).session.namespaceHint = s.namespaceHint
  lastError : (s.commit which name content).session.lastError = s.lastError

theorem WellFormed.commits (hs : s.WellFormed) (which : Shelf) (name content : String) :
    s.Commits which name content := by
  refine ⟨commit_true_iff, commit_false_iff, ?_, commit_session_eq, ?_, ?_, ?_, ?_, ?_, ?_⟩
  · rw [commit_notFound_iff, (hs which).get?_eq_none_iff]
  · intro d hget hne
    rw [commit_session, Session.after, shelf_setShelf, (hs which).get?_modify, if_pos rfl, hget]
    simp [Document.commit, hne]
  · intro other
    rw [commit_session, Session.after]
    by_cases heq : other = which
    · subst heq
      rw [shelf_setShelf, DocumentSet.keys_modify]
    · rw [shelf_setShelf_of_ne heq]
  · intro other slot key d hne
    rw [commit_session]
    exact stands_commit_of_ne hs hne
  all_goals
    rw [commit_session]
    cases which <;> rfl

end Session

theorem Document.dirty_commit (d : Document) (content : String) :
    (d.commit content).dirty = true ↔ d.dirty = true ∨ d.content ≠ content := by
  unfold commit
  by_cases hsame : d.content = content <;> simp [hsame]

theorem Document.content_commit (d : Document) (content : String) :
    (d.commit content).content = content := by
  unfold commit
  by_cases hsame : d.content = content <;> simp [hsame]

/-! ### Turns -/

theorem Turn.cleans_of_mem {t : Turn}
    (hcommit : ∀ which name content, t.operation ≠ .commit which name content)
    (hreplace : ∀ targets wellFormed, t.operation ≠ .replaceTargets targets wellFormed) {x : Deed}
    (hx : x ∈ t.deeds) : x.cleans = true := by
  unfold deeds at hx
  split at hx
  case h_5 => exact absurd ‹_› (hcommit _ _ _)
  case h_6 => exact absurd ‹_› (hreplace _ _)
  case h_7 => cases hx
  case h_8 => cases hx
  case h_9 | h_10 =>
    split at hx
    · rw [List.mem_singleton.mp hx]
      rfl
    · cases hx
  all_goals
    obtain ⟨e, -, he⟩ := List.mem_filterMap.mp hx
    rcases Event.deed?_cases he with ⟨p, data, rfl⟩ | ⟨seat, p, data, rfl⟩
    · rfl
    · rfl

section

variable [FurtherCharsets] {σ : Type} {reader : Reader σ} {storage : Storage σ} {store store' : σ}
variable {s t : Session} {which : Shelf} {slot : Nat} {key : String} {d : Document}

theorem Course.stands {ds : List Deed} (h : Course reader storage store s ds store' t)
    (hs : s.WellFormed) (hclean : ∀ x ∈ ds, x.cleans = true) (ht : t.Stands which slot key d) :
    (∃ x ∈ ds, x.Resets which slot key) ∧ d.dirty = false ∨
      (¬∃ x ∈ ds, x.Resets which slot key) ∧ s.Stands which slot key d := by
  induction h with
  | done => exact .inr ⟨by simp, ht⟩
  | refused _ _ ih => exact ih hs hclean ht
  | deed hp _ _ ih =>
      rcases ih (hs.after hp) (fun x hx => hclean x (by simp [hx])) ht with
        ⟨⟨x, hx, hreset⟩, hdirty⟩ | ⟨hnone, hstands⟩
      · exact .inl ⟨⟨x, by simp [hx], hreset⟩, hdirty⟩
      · rcases Session.after_stands hs (hclean _ (by simp)) hstands with
          ⟨hreset, hdirty⟩ | ⟨hreset, hstands⟩
        · exact .inl ⟨⟨_, by simp, hreset⟩, hdirty⟩
        · refine .inr ⟨?_, hstands⟩
          rintro ⟨x, hx, hxreset⟩
          rcases List.mem_cons.mp hx with rfl | hx
          · exact hreset hxreset
          · exact hnone ⟨x, hx, hxreset⟩

end

section

variable {σ : Type} {s : Session} {which : Shelf} {slot : Nat} {key : String} {d : Document}

/-- What a turn leaves of a document that it does not reset: at most another text, and
then the mark. -/
def Session.Leaves (s : Session) (which : Shelf) (slot : Nat) (key : String) (turn : Turn)
    (d : Document) : Prop :=
  ∃ e, s.Stands which slot key e ∧ (d.dirty = true ↔ e.dirty = true ∨ turn.Changes which key) ∧
    (d.content ≠ e.content → turn.Changes which key)

theorem Session.Stands.leaves (h : s.Stands which slot key d) {turn : Turn}
    (hturn : ¬turn.Changes which key) : s.Leaves which slot key turn d :=
  ⟨d, h, by simp [hturn], fun hne => absurd rfl hne⟩

theorem commit_leaves {other : Shelf} {name content : String} (hs : s.WellFormed) {turn : Turn}
    (hop : turn.operation = .commit other name content)
    (hresult : turn.result = (s.commit other name content).result.map .changed)
    (h : (s.commit other name content).session.Stands which slot key d) :
    s.Leaves which slot key turn d := by
  rw [s.commit_session] at h
  by_cases hname : other = which ∧ name = key
  · obtain ⟨rfl, rfl⟩ := hname
    obtain ⟨e, he, rfl⟩ := Session.stands_commit hs h
    -- the answer tells of the very document that stands in the slot
    have hget := (hs.stands_iff.mp he).2
    have hchanges : turn.Changes other name ↔ e.content ≠ content := by
      have htrue : turn.result = .ok (.changed true) ↔
          (s.commit other name content).result = .ok true := by
        rw [hresult]
        cases (s.commit other name content).result <;> simp [Except.map]
      unfold Turn.Changes
      rw [htrue, Session.commit_true_iff]
      constructor
      · rintro ⟨_, -, d, hd, hne⟩
        obtain rfl : e = d := Option.some.inj (hget.symm.trans hd)
        exact hne
      · exact fun hne => ⟨content, hop, e, hget, hne⟩
    refine ⟨e, he, ?_, ?_⟩
    · rw [hchanges, Document.dirty_commit]
    · rw [hchanges, Document.content_commit]
      exact Ne.symm
  · refine ((Session.stands_commit_of_ne hs hname).mp h).leaves ?_
    rintro ⟨content', hop', -⟩
    rw [hop] at hop'
    cases hop'
    exact hname ⟨rfl, rfl⟩

theorem replace_stands {targets : DocumentSet} {turn : Turn} {wellFormed : targets.WellFormed}
    (hop : turn.operation = .replaceTargets targets wellFormed)
    (h : ({ s with targets } : Session).Stands which slot key d) :
    turn.Resets which slot key ∧ (d.dirty = true ↔ turn.InstallsDirty which slot) ∨
      ¬turn.Resets which slot key ∧ s.Leaves which slot key turn d := by
  have hdeeds : turn.deeds = [.replaced targets] := by simp [Turn.deeds, hop]
  have hresets : turn.Resets which slot key ↔ which = .targets := by
    simp [Turn.Resets, hdeeds, Deed.Resets]
  rw [hresets]
  cases which with
  | sources =>
      refine .inr ⟨by simp, Session.Stands.leaves h ?_⟩
      rintro ⟨content, hop', -⟩
      rw [hop] at hop'
      cases hop'
  | targets =>
      refine .inl ⟨rfl, fun hdirty => ⟨rfl, targets, wellFormed, d, hop, h.2, hdirty⟩, ?_⟩
      rintro ⟨-, targets', wellFormed', e, hop', he, hdirty⟩
      rw [hop] at hop'
      cases hop'
      obtain rfl : d = e := Option.some.inj (h.2.symm.trans he)
      exact hdirty

/-! ### Runs -/

/-- The last reset of a document in a run `r` is at the end of the run `r₀`, where it was
`d₀`; since then there were more turns, and now it is `d`. The mark tells whether it was
installed with it or changed since, and no other text than that of the reset goes
without it. -/
structure LastReset (r₀ r : Run σ) (which : Shelf) (slot : Nat) (key : String) (turn : Turn)
    (since : List Turn) (d₀ d : Document) : Prop where
  last : r₀.turns.getLast? = some turn
  turns : r.turns = r₀.turns ++ since
  resets : turn.Resets which slot key
  quiet : ∀ t ∈ since, ¬t.Resets which slot key
  stands : r₀.session.Stands which slot key d₀
  dirty_iff : d.dirty = true ↔ turn.InstallsDirty which slot ∨ ∃ t ∈ since, t.Changes which key
  changed : d.content ≠ d₀.content → d.dirty = true

variable {r₀ r r' : Run σ} {turn last : Turn} {since : List Turn} {d₀ e : Document}

theorem LastReset.here (hturns : r'.turns = r.turns ++ [turn])
    (hreset : turn.Resets which slot key) (h : r'.session.Stands which slot key d)
    (hdirty : d.dirty = true ↔ turn.InstallsDirty which slot) :
    LastReset r' r' which slot key turn [] d d :=
  ⟨by simp [hturns], by simp, hreset, by simp, h, by simp [hdirty], fun hne => absurd rfl hne⟩

theorem LastReset.leave (h : LastReset r₀ r which slot key last since d₀ e)
    (hturns : r'.turns = r.turns ++ [turn]) (hreset : ¬turn.Resets which slot key)
    (hdirty : d.dirty = true ↔ e.dirty = true ∨ turn.Changes which key)
    (hcontent : d.content ≠ e.content → turn.Changes which key) :
    LastReset r₀ r' which slot key last (since ++ [turn]) d₀ d := by
  refine ⟨h.last, ?_, h.resets, ?_, h.stands, ?_, ?_⟩
  · rw [hturns, h.turns, List.append_assoc]
  · intro t ht
    rcases List.mem_append.mp ht with ht | ht
    · exact h.quiet t ht
    · rwa [List.mem_singleton.mp ht]
  · rw [hdirty, h.dirty_iff]
    simp [or_and_right, exists_or, or_assoc]
  · intro hne
    rw [hdirty]
    by_cases heq : d.content = e.content
    · exact .inl (h.changed (heq ▸ hne))
    · exact .inr (hcontent heq)

variable [FurtherCharsets] (reader : Reader σ) (storage : Storage σ) {store : σ}

/-- A turn resets a document, or leaves it. -/
theorem perform_stands {op : Operation} {p : σ × Step Operation.Result}
    (hp : op.perform reader storage store s = p) {turn : Turn}
    (hturn : turn = ⟨op, p.2.result, p.2.events⟩) (hs : s.WellFormed)
    (h : p.2.session.Stands which slot key d) :
    turn.Resets which slot key ∧ (d.dirty = true ↔ turn.InstallsDirty which slot) ∨
      ¬turn.Resets which slot key ∧ s.Leaves which slot key turn d := by
  subst hp hturn
  by_cases hcommit : ∃ which name content, op = .commit which name content
  · obtain ⟨other, name, content, rfl⟩ := hcommit
    refine .inr ⟨?_, commit_leaves hs rfl rfl h⟩
    rintro ⟨x, hx, hreset⟩
    rw [List.mem_singleton.mp hx] at hreset
    exact hreset
  by_cases hreplace : ∃ targets wellFormed, op = .replaceTargets targets wellFormed
  · obtain ⟨targets, wellFormed, rfl⟩ := hreplace
    exact replace_stands rfl h
  -- any other operation changes documents by resetting them only
  have hclean := fun x => Turn.cleans_of_mem (x := x)
    (t := ⟨op, (op.perform reader storage store s).2.result,
      (op.perform reader storage store s).2.events⟩)
    (fun which name content heq => hcommit ⟨which, name, content, heq⟩)
    (fun targets wellFormed heq => hreplace ⟨targets, wellFormed, heq⟩)
  rcases (perform_course reader storage op store s).stands hs hclean h with
    ⟨hreset, hdirty⟩ | ⟨hreset, hstands⟩
  · refine .inl ⟨hreset, by simp [hdirty], ?_⟩
    rintro ⟨-, targets, wellFormed, _, heq, -⟩
    exact absurd ⟨targets, wellFormed, heq⟩ hreplace
  · refine .inr ⟨hreset, hstands.leaves ?_⟩
    rintro ⟨content, heq, -⟩
    exact hcommit ⟨which, key, content, heq⟩

theorem run_lastReset (store : σ) (ops : List Operation) {r : Run σ}
    (hr : run reader storage store .empty ops = r) (h : r.session.Stands which slot key d) :
    ∃ past rest turn since d₀, ops = past ++ rest ∧
      LastReset (run reader storage store .empty past) r which slot key turn since d₀ d := by
  induction ops using List.reverseRecOn generalizing r d with
  | nil =>
      subst hr
      cases which <;> cases h.1
  | append_singleton ops op ih =>
      obtain ⟨r', hr'⟩ : ∃ r', run reader storage store .empty ops = r' := ⟨_, rfl⟩
      obtain ⟨p, hp⟩ : ∃ p, op.perform reader storage r'.store r'.session = p := ⟨_, rfl⟩
      have hs : r'.session.WellFormed := hr' ▸ run_wellFormed reader storage store ops
      obtain rfl := hr.symm.trans (run_concat reader storage ops op store .empty hr' hp)
      rcases perform_stands reader storage hp rfl hs h with ⟨hreset, hdirty⟩ | ⟨hreset, hleaves⟩
      · -- the last turn is the last reset
        refine ⟨ops ++ [op], [], ⟨op, p.2.result, p.2.events⟩, [], d, by simp, ?_⟩
        rw [hr]
        exact .here rfl hreset h hdirty
      · obtain ⟨e, he, hdirty, hcontent⟩ := hleaves
        obtain ⟨past, rest, turn, since, d₀, rfl, hlast⟩ := ih hr' he
        exact ⟨past, rest ++ [op], turn, _, d₀, by simp, hlast.leave rfl hreset hdirty hcontent⟩

/-- Every document of a reached session was reset at some time; it is dirty when it was
changed since the last time or installed dirty then, and only so. Every commit to a
reached session answers what it did, to one document at most. -/
theorem run_dirty (store : σ) (ops : List Operation) :
    let r := run reader storage store .empty ops
    (∀ which slot d, (r.session.shelf which).documents[slot]? = some d →
      ∃ key, r.session.Stands which slot key d ∧
        ∃ past rest turn since d₀, ops = past ++ rest ∧
          LastReset (run reader storage store .empty past) r which slot key turn since d₀ d) ∧
    ∀ which name content, r.session.Commits which name content := by
  intro r
  have hs : r.session.WellFormed := run_wellFormed reader storage store ops
  refine ⟨?_, hs.commits⟩
  intro which slot d hd
  have hlt : slot < (r.session.shelf which).keys.length :=
    (hs which).length_eq ▸ (List.getElem?_eq_some_iff.mp hd).1
  have hstands : r.session.Stands which slot (r.session.shelf which).keys[slot] d :=
    ⟨List.getElem?_eq_getElem hlt, hd⟩
  exact ⟨_, hstands, run_lastReset reader storage store ops rfl hstands⟩

end

end SourceDesk
