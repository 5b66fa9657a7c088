import SourceDesk.Proofs.Session.Sources

/-! Loading from what answers the same to the same path. A load puts the documents of the paths
that can be read into the sources, one after the other, and reports the first path that cannot.
So it can be cut anywhere, and to do it once more changes nothing. -/
namespace SourceDesk.Session

/-! ### What a load comes to -/

section

variable (read : Path → Except String Bytes)

/-- The document that a path gives, if it can be read. -/
def document? (p : Path) : Option Document :=
  (read p).toOption.map fun data => .loaded p (.decode data)

/-- The failure of a path that cannot be read. -/
def refusal? (p : Path) : Option Failure :=
  match read p with
  | .error reason => some (.storage p reason)
  | .ok _ => none

/-- The names that the paths of a list give which can be read, in order. -/
def readNames (ps : List Path) : List String :=
  (ps.filter fun p => (read p).isOk).map Path.documentName

end

section

variable {read : Path → Except String Bytes} {p : Path} {ps : List Path} {data : Bytes}
variable {reason : String}

theorem document?_ok (h : read p = .ok data) :
    document? read p = some (.loaded p (.decode data)) := by
  simp [document?, h, Except.toOption]

theorem document?_error (h : read p = .error reason) : document? read p = none := by
  simp [document?, h, Except.toOption]

theorem refusal?_ok (h : read p = .ok data) : refusal? read p = none := by
  simp [refusal?, h]

theorem refusal?_error (h : read p = .error reason) :
    refusal? read p = some (.storage p reason) := by
  simp [refusal?, h]

theorem document?_eq_some_iff {d : Document} :
    document? read p = some d ↔ ∃ data, read p = .ok data ∧ d = .loaded p (.decode data) := by
  cases h : read p with
  | error reason => simp [document?_error h]
  | ok data => simp [document?_ok h, eq_comm]

theorem refusal?_eq_none_iff : refusal? read p = none ↔ ∃ data, read p = .ok data := by
  cases h : read p with
  | error reason => simp [refusal?_error h]
  | ok data => simp [refusal?_ok h]

theorem findSome?_refusal?_eq_none_iff :
    ps.findSome? (refusal? read) = none ↔ ∀ p ∈ ps, ∃ data, read p = .ok data := by
  simp only [List.findSome?_eq_none_iff, refusal?_eq_none_iff]

theorem map_name_document? (ps : List Path) :
    (ps.filterMap (document? read)).map Document.name = readNames read ps := by
  induction ps with
  | nil => rfl
  | cons p ps ih =>
      unfold readNames at ih ⊢
      cases h : read p with
      | error reason => simp [document?_error h, h, ih, Except.isOk, Except.toBool]
      | ok data => simp [document?_ok h, h, ih, Except.isOk, Except.toBool, Document.loaded]

theorem readNames_of_readable (h : ∀ p ∈ ps, ∃ data, read p = .ok data) :
    readNames read ps = ps.map Path.documentName := by
  rw [readNames, List.filter_eq_self.mpr]
  intro p hp
  obtain ⟨data, hdata⟩ := h p hp
  rw [hdata]
  rfl

end

section

variable (s : Session) (read : Path → Except String Bytes) (ps : List Path)

theorem loadEach_eq (sources : DocumentSet) :
    let loading := loadEach (fun () p => ((), read p)) () ps sources
    loading.sources = sources.insertAll (ps.filterMap (document? read)) ∧
      loading.names = readNames read ps ∧ loading.failure = ps.findSome? (refusal? read) := by
  simp only [← map_name_document?]
  induction ps generalizing sources with
  | nil => exact ⟨rfl, rfl, rfl⟩
  | cons p ps ih =>
      cases hread : read p with
      | error reason =>
          obtain ⟨hsources, hnames, -⟩ := ih sources
          simp only [loadEach, hread, List.filterMap_cons, document?_error hread,
            List.findSome?_cons, refusal?_error hread, and_true]
          exact ⟨hsources, hnames⟩
      | ok data =>
          obtain ⟨hsources, hnames, hfailure⟩ := ih (sources.insert (.loaded p (.decode data)))
          simp only [loadEach, hread, List.filterMap_cons, document?_ok hread,
            List.findSome?_cons, refusal?_ok hread, List.map_cons]
          exact ⟨hsources, congrArg (_ :: ·) hnames, hfailure⟩

theorem load_session :
    (s.load read ps).session =
      { s with sources := s.sources.insertAll (ps.filterMap (document? read)) } := by
  simp only [load, loadFrom, (loadEach_eq read ps s.sources).1]

theorem load_result :
    (s.load read ps).result = match ps.findSome? (refusal? read) with
      | some failure => .error failure
      | none => .ok (readNames read ps) := by
  obtain ⟨-, hnames, hfailure⟩ := loadEach_eq read ps s.sources
  cases hfirst : ps.findSome? (refusal? read) with
  | none => simp only [load, loadFrom, hnames, hfailure, hfirst]
  | some failure => simp only [load, loadFrom, hfailure, hfirst]

end

/-! ### Results -/

section

variable {s : Session} {read : Path → Except String Bytes} {ps before after : List Path} {p : Path}
variable {data : Bytes} {reason name : String}

theorem load_ok (h : ∀ p ∈ ps, ∃ data, read p = .ok data) :
    (s.load read ps).result = .ok (ps.map Path.documentName) := by
  rw [load_result s read ps, findSome?_refusal?_eq_none_iff.mpr h, readNames_of_readable h]

/-- A load goes well if each path can be read. -/
theorem load_result_eq_ok_iff :
    (∃ names, (s.load read ps).result = .ok names) ↔ ∀ p ∈ ps, ∃ data, read p = .ok data := by
  rw [← findSome?_refusal?_eq_none_iff, load_result s read ps]
  cases ps.findSome? (refusal? read) <;> simp

/-- The first path that cannot be read is reported, whatever comes after it. -/
theorem load_error (hbefore : ∀ q ∈ before, ∃ data, read q = .ok data)
    (hp : read p = .error reason) :
    (s.load read (before ++ p :: after)).result = .error (.storage p reason) := by
  rw [load_result, List.findSome?_append, findSome?_refusal?_eq_none_iff.mpr hbefore,
    Option.none_or, List.findSome?_cons, refusal?_error hp]

/-- A load is the load of its first paths and then that of the others. -/
theorem load_append (s : Session) (read : Path → Except String Bytes) (ps qs : List Path) :
    (s.load read (ps ++ qs)).session = ((s.load read ps).session.load read qs).session := by
  simp only [load_session, List.filterMap_append, DocumentSet.insertAll_append]

/-! ### Sources after a load -/

theorem names_load (hs : s.sources.WellFormed) (hn : s.sources.Named) :
    (s.load read ps).session.sources.names =
      s.sources.names ++ ((readNames read ps).filter (· ∉ s.sources.names)).eraseDups := by
  have hnamed := hn.insertAll hs (ps.filterMap (document? read))
  rw [load_session, show DocumentSet.names _ = _ from hnamed, DocumentSet.keys_insertAll,
    map_name_document?, show s.sources.names = s.sources.keys from hn]

theorem get?_load (hs : s.sources.WellFormed) (name : String) :
    (s.load read ps).session.sources.get? name =
      (((ps.filterMap (document? read)).filter fun d => d.name = name).getLast?).or
        (s.sources.get? name) := by
  rw [load_session]
  exact hs.get?_insertAll _ name

/-- Paths that give no document of a name. -/
theorem filter_document?_eq_nil
    (h : ∀ p ∈ ps, p.documentName = name → ∃ reason, read p = .error reason) :
    ((ps.filterMap (document? read)).filter fun d => d.name = name) = [] := by
  simp only [List.filter_eq_nil_iff, List.mem_filterMap, decide_eq_true_eq]
  rintro d ⟨p, hp, hd⟩ hname
  obtain ⟨data, hok, rfl⟩ := document?_eq_some_iff.mp hd
  obtain ⟨reason, herror⟩ := h p hp hname
  rw [hok] at herror
  cases herror

/-- The last path of a name that can be read gives the source. -/
theorem get?_load_of_last (hs : s.sources.WellFormed) (hp : read p = .ok data)
    (hafter : ∀ q ∈ after, q.documentName = p.documentName → ∃ reason, read q = .error reason) :
    (s.load read (before ++ p :: after)).session.sources.get? p.documentName =
      some (.loaded p (.decode data)) := by
  have hname : (Document.loaded p (.decode data)).name = p.documentName := rfl
  rw [get?_load hs, List.filterMap_append, List.filter_append,
    List.filterMap_cons_some (document?_ok hp), List.filter_cons_of_pos (by simp [hname]),
    filter_document?_eq_nil hafter, List.getLast?_concat, Option.some_or]

theorem get?_load_of_unread (hs : s.sources.WellFormed)
    (h : ∀ p ∈ ps, p.documentName = name → ∃ reason, read p = .error reason) :
    (s.load read ps).session.sources.get? name = s.sources.get? name := by
  rw [get?_load hs, filter_document?_eq_nil h, List.getLast?_nil, Option.none_or]

/-- Files that were loaded can be loaded again, as long as they stay what they are. -/
theorem load_again (hs : s.sources.WellFormed) :
    ((s.load read ps).session.load read ps).session = (s.load read ps).session ∧
      ((s.load read ps).session.load read ps).result = (s.load read ps).result := by
  constructor
  · simp only [load_session, hs.insertAll_insertAll]
  · rw [load_result, load_result s read ps]

end

end SourceDesk.Session

namespace SourceDesk

/-- Loading into whatever session a run has left, from a reader that answers the same to the
same path. -/
theorem run_load [FurtherCharsets] {σ : Type} (reader : Reader σ) (storage : Storage σ)
    (store : σ) (ops : List Operation) (read : Path → Except String Bytes) (ps qs : List Path) :
    let s := (run reader storage store .empty ops).session
    let t := s.load read ps
    (s.load read (ps ++ qs)).session = (t.session.load read qs).session ∧
    ((∀ p ∈ ps, ∃ data, read p = .ok data) → t.result = .ok (ps.map Path.documentName)) ∧
    (∀ before p after reason, ps = before ++ p :: after →
      (∀ q ∈ before, ∃ data, read q = .ok data) → read p = .error reason →
      t.result = .error (.storage p reason)) ∧
    -- the sources, by their order and by their names
    t.session.sources.names = s.sources.names ++
      (((ps.filter fun p => (read p).isOk).map Path.documentName).filter
        (· ∉ s.sources.names)).eraseDups ∧
    (∀ d ∈ t.session.sources.documents, t.session.sources.get? d.name = some d) ∧
    (∀ before p after data, ps = before ++ p :: after → read p = .ok data →
      (∀ q ∈ after, q.documentName = p.documentName → ∃ reason, read q = .error reason) →
      t.session.sources.get? p.documentName = some (.loaded p (.decode data))) ∧
    (∀ name, (∀ p ∈ ps, p.documentName = name → ∃ reason, read p = .error reason) →
      t.session.sources.get? name = s.sources.get? name) ∧
    -- the same files once more
    (t.session.load read ps).session = t.session ∧
    (t.session.load read ps).result = t.result ∧
    t.session = { s with sources := t.session.sources } := by
  have hrooted := run_rooted reader storage store ops
  have hsources : (run reader storage store .empty ops).session.sources.WellFormed :=
    hrooted.wellFormed .sources
  refine ⟨Session.load_append _ read ps qs, Session.load_ok, ?_,
    Session.names_load hsources hrooted.named, ?_, ?_,
    fun name => Session.get?_load_of_unread hsources,
    (Session.load_again hsources).1, (Session.load_again hsources).2, ?_⟩
  · rintro before p after reason rfl hbefore hp
    exact Session.load_error hbefore hp
  · intro d hd
    rw [Session.load_session] at hd ⊢
    exact (hrooted.named.insertAll hsources _).get?_name (hsources.insertAll _) hd
  · rintro before p after data rfl hp hafter
    exact Session.get?_load_of_last hsources hp hafter
  · rw [Session.load_session]

end SourceDesk
