import SourceDesk.Proofs.Session.Submission
import SourceDesk.Proofs.Session.Translation
import SourceDesk.Proofs.Text.Coordinates

/-! The place of the last error. Between attempts the error stays what it is, and sources are
only added behind those that are there: a place that was found is found again, and one that was
missing is found from the moment on when a file of its name is read. -/
namespace SourceDesk

namespace Deed

/-- Whether a deed is an attempt to translate. -/
def isAttempt : Deed → Bool
  | .translated .. | .translatedAgain .. => true
  | _ => false

variable {ds es : List Deed} {name : String}

theorem mem_sourceNames_iff :
    name ∈ sourceNames ds ↔ ∃ p data, .loaded p data ∈ ds ∧ p.documentName = name := by
  simp only [sourceNames, List.mem_eraseDups, List.mem_filterMap]
  constructor
  · rintro ⟨d, hd, hname⟩
    cases d with
    | loaded p data => exact ⟨p, data, hd, Option.some.inj hname⟩
    | _ => cases hname
  · rintro ⟨p, data, hd, rfl⟩
    exact ⟨.loaded p data, hd, rfl⟩

theorem sourceNames_prefix (ds es : List Deed) : sourceNames ds <+: sourceNames (ds ++ es) := by
  rw [sourceNames, sourceNames, List.filterMap_append, List.eraseDups_append]
  exact List.prefix_append _ _

end Deed

/-! ### Errors -/

/-- What is no attempt leaves the error as it is. -/
theorem Session.lastError_after (s : Session) {d : Deed} (hd : d.isAttempt = false) :
    (s.after d).lastError = s.lastError := by
  cases d with
  | committed which name content => cases which <;> rfl
  | written seat p data =>
      obtain ⟨which, slot⟩ := seat
      cases which <;> rfl
  | loaded p data => rfl
  | replaced targets => rfl
  | translated language namespaceHint o => cases hd
  | translatedAgain catalog o => cases hd

/-- A turn without an outcome holds no attempt. -/
theorem Turn.isAttempt_of_mem {t : Turn} (ho : t.outcome? = none) {d : Deed} (hd : d ∈ t.deeds) :
    d.isAttempt = false := by
  have hevents : d ∈ t.events.filterMap Event.deed? → d.isAttempt = false := by
    intro hmem
    obtain ⟨e, -, he⟩ := List.mem_filterMap.mp hmem
    rcases Event.deed?_cases he with ⟨p, data, rfl⟩ | ⟨seat, p, data, rfl⟩ <;> rfl
  have htranslation : t.operation.translator?.isSome → d.isAttempt = false := by
    intro hop
    rw [Turn.deeds_eq_nil ho hop] at hd
    cases hd
  obtain ⟨op, result, events⟩ := t
  cases op with
  | load paths => exact hevents hd
  | save which => exact hevents hd
  | saveTargetAs name p => exact hevents hd
  | exportTargets dir => exact hevents hd
  | commit which name content =>
      rw [List.mem_singleton.mp hd]
      rfl
  | replaceTargets targets wellFormed =>
      rw [List.mem_singleton.mp hd]
      rfl
  | resolve position => cases hd
  | locate => cases hd
  | translate translator language namespaceHint => exact htranslation rfl
  | translateAgain translator catalog => exact htranslation rfl

section

variable [FurtherCharsets] {σ : Type} {reader : Reader σ} {storage : Storage σ}
variable {store store' : σ} {s t : Session} {ds past : List Deed}

theorem Course.lastError (h : Course reader storage store s ds store' t)
    (hds : ∀ d ∈ ds, d.isAttempt = false) : t.lastError = s.lastError := by
  induction h with
  | done => rfl
  | refused _ _ ih => exact ih hds
  | @deed _ _ _ s _ d ds _ _ _ ih =>
      rw [ih fun e he => hds e (by simp [he])]
      exact s.lastError_after (hds d (by simp))

theorem Course.sourced (h : Course reader storage store s ds store' t)
    (hs : Session.Sourced past s) : Session.Sourced (past ++ ds) t :=
  h.induction (motive := fun ds _ s => Session.Sourced ds s) (fun _ _ _ _ _ hi => hi)
    (fun _ _ d _ _ _ _ hi => hi.after d) past hs

end

/-! ### Sources -/

theorem DocumentSet.contains_iff {set : DocumentSet} {key : String} :
    set.contains key = true ↔ key ∈ set.keys := by
  rw [contains, Option.isSome_iff_ne_none, ne_eq, slot?_eq_none_iff, not_not]

namespace Session

variable {s t : Session} {past ds : List Deed} {name : String}

theorem Sourced.names (h : Sourced past s) : s.sources.names = Deed.sourceNames past :=
  Eq.trans h.follows.named h.keys

theorem Sourced.names_prefix (h : Sourced past s) (ht : Sourced (past ++ ds) t) :
    s.sources.names <+: t.sources.names := by
  rw [h.names, ht.names]
  exact Deed.sourceNames_prefix past ds

/-- A name that is new was brought by a load. -/
theorem Sourced.mem_names_iff (h : Sourced past s) (ht : Sourced (past ++ ds) t)
    (hname : name ∉ s.sources.names) :
    name ∈ t.sources.names ↔ ∃ p data, .loaded p data ∈ ds ∧ p.documentName = name := by
  rw [h.names, Deed.mem_sourceNames_iff] at hname
  rw [ht.names, Deed.mem_sourceNames_iff]
  constructor
  · rintro ⟨p, data, hd, rfl⟩
    rcases List.mem_append.mp hd with hd | hd
    · exact absurd ⟨p, data, hd, rfl⟩ hname
    · exact ⟨p, data, hd, rfl⟩
  · rintro ⟨p, data, hd, hp⟩
    exact ⟨p, data, List.mem_append_right _ hd, hp⟩

theorem firstSourceName?_eq (s : Session) : s.firstSourceName? = s.sources.names.head? := by
  rw [firstSourceName?, DocumentSet.first?, DocumentSet.names, List.head?_map]

theorem firstSourceName?_of_prefix (h : s.sources.names <+: t.sources.names)
    (hfirst : s.firstSourceName? = some name) : t.firstSourceName? = some name := by
  rw [firstSourceName?_eq] at hfirst ⊢
  obtain ⟨more, hmore⟩ := h
  rw [← hmore, List.head?_append, hfirst]
  rfl

/-! ### Places -/

/-- A position is found if a source has its name. -/
theorem Sourced.resolve_eq (h : Sourced past s) (p : SourcePosition) :
    s.resolve p = if p.source ∈ s.sources.names then .ok ⟨p.source, p.offset⟩
      else .error (.notFound p.source) := by
  have hkeys : s.sources.names = s.sources.keys := h.follows.named
  rw [resolve, hkeys]
  simp only [DocumentSet.contains_iff]

theorem Sourced.locate?_eq (h : Sourced past s) :
    s.locate? = (s.lastError.bind Diagnostic.position).map fun p =>
      if p.source ∈ s.sources.names then .ok ⟨p.source, p.offset⟩
      else .error (.notFound p.source) := by
  rw [locate?]
  exact congrArg (Option.map · _) (funext h.resolve_eq)

theorem Sourced.locate?_eq_ok_iff (h : Sourced past s) {l : Location} :
    s.locate? = some (.ok l) ↔ ∃ p, s.lastError.bind Diagnostic.position = some p ∧
      p.source ∈ s.sources.names ∧ l = ⟨p.source, p.offset⟩ := by
  rw [h.locate?_eq, Option.map_eq_some_iff]
  refine exists_congr fun p => and_congr_right fun _ => ?_
  by_cases hp : p.source ∈ s.sources.names <;> simp [hp, eq_comm]

theorem Sourced.locate?_eq_error_iff (h : Sourced past s) {name : String} :
    s.locate? = some (.error (.notFound name)) ↔
      ∃ p, s.lastError.bind Diagnostic.position = some p ∧ p.source ∉ s.sources.names ∧
        p.source = name := by
  rw [h.locate?_eq, Option.map_eq_some_iff]
  refine exists_congr fun p => and_congr_right fun _ => ?_
  by_cases hp : p.source ∈ s.sources.names <;> simp [hp]

/-- Line and column of a place in a source are those in its own text. -/
theorem Sourced.coordinates?_of_mem (h : Sourced past s) {d : Document}
    (hd : d ∈ s.sources.documents) (offset : UInt64) :
    s.coordinates? ⟨d.name, offset⟩ =
      some (.behind (d.content.toList.take (min offset.toNat d.content.length))) := by
  simp only [coordinates?, h.follows.named.get?_name h.follows.wellFormed hd, Option.map_some,
    Coordinates.ofOffset_eq_behind]

end Session

/-! ### Runs -/

section

variable [FurtherCharsets] {σ τ : Type} (reader : Reader σ) (storage : Storage σ)
variable (reader' : Reader τ) (storage' : Storage τ)

/-- In every session that is reached, the place of the last error is found if the error has one
and a source of its name is loaded, and then it has a line and a column in the text as it is
now. Whatever is done, sources stay in front of those that are added. As long as there is no
other attempt the error stays, a place that was found is found again, and one that was missing
is found when a file of its name was read, and not before. -/
theorem run_locate (store : σ) (ops : List Operation) (store' : τ) (more : List Operation) :
    let s := (run reader storage store .empty ops).session
    let r := run reader' storage' store' s more
    let t := r.session
    t.locate? = (t.lastError.bind Diagnostic.position).map (fun p =>
      if p.source ∈ t.sources.names then .ok ⟨p.source, p.offset⟩
      else .error (.notFound p.source)) ∧
    (∀ l, t.locate? = some (.ok l) → ∃ d ∈ t.sources.documents, d.name = l.document ∧
      t.coordinates? l =
        some (.behind (d.content.toList.take (min l.offset.toNat d.content.length)))) ∧
    s.sources.names <+: t.sources.names ∧
    (∀ name, s.firstSourceName? = some name → t.firstSourceName? = some name) ∧
    ((∀ turn ∈ r.turns, turn.outcome? = none) →
      t.lastError = s.lastError ∧
      (∀ l, s.locate? = some (.ok l) → t.locate? = some (.ok l)) ∧
      ∀ name, s.locate? = some (.error (.notFound name)) →
        ((∃ l, t.locate? = some (.ok l)) ↔
          ∃ p data, .loaded p data ∈ r.deeds ∧ p.documentName = name)) := by
  intro s r t
  have hs := run_sourced reader storage store ops
  have hcourse := run_course reader' storage' more store' s
  have ht := hcourse.sourced hs
  refine ⟨ht.locate?_eq, ?_, hs.names_prefix ht, ?_, fun hquiet => ?_⟩
  · intro l hl
    obtain ⟨p, -, hp, rfl⟩ := ht.locate?_eq_ok_iff.mp hl
    obtain ⟨d, hd, hname⟩ := List.mem_map.mp hp
    exact ⟨d, hd, hname, hname ▸ ht.coordinates?_of_mem hd p.offset⟩
  · intro name hname
    exact Session.firstSourceName?_of_prefix (hs.names_prefix ht) hname
  have hdeeds : ∀ d ∈ r.deeds, d.isAttempt = false := by
    intro d hd
    obtain ⟨turn, hturn, hmem⟩ := List.mem_flatMap.mp hd
    exact Turn.isAttempt_of_mem (hquiet turn hturn) hmem
  have herror : t.lastError = s.lastError := hcourse.lastError hdeeds
  refine ⟨herror, fun l hl => ?_, fun name hname => ?_⟩
  · obtain ⟨p, hpos, hp, rfl⟩ := hs.locate?_eq_ok_iff.mp hl
    rw [← herror] at hpos
    exact ht.locate?_eq_ok_iff.mpr ⟨p, hpos, (hs.names_prefix ht).mem hp, rfl⟩
  · obtain ⟨p, hpos, hp, rfl⟩ := hs.locate?_eq_error_iff.mp hname
    rw [← herror] at hpos
    -- the error is the same, so that only the names of the sources decide
    rw [← hs.mem_names_iff ht hp]
    constructor
    · rintro ⟨l, hl⟩
      obtain ⟨q, hq, hsource, -⟩ := ht.locate?_eq_ok_iff.mp hl
      obtain rfl : p = q := Option.some.inj (hpos.symm.trans hq)
      exact hsource
    · exact fun hsource => ⟨_, ht.locate?_eq_ok_iff.mpr ⟨p, hpos, hsource, rfl⟩⟩

end

attribute [local instance] FurtherCharsets.none in
/-- An error in a file that is loaded afterwards, at the second try and from another directory. -/
theorem run_locate_afterwards :
    let files := Memory.ofFiles [(.ofText "a", [65]), (.ofText "dir/b", [66, 10, 67])]
    let refuse : Translator := fun _ => ⟨.refused (.diagnosed ⟨"bad", some ⟨"b", 9⟩⟩), []⟩
    let s := (run Memory.storage.reader Memory.storage files .empty
      [.load [.ofText "a"], .translate refuse "go" ""]).session
    let r := run Memory.storage.reader Memory.storage files s
      [.load [.ofText "b"], .commit .sources "a" "new", .load [.ofText "dir/b", .ofText "c"]]
    s.locate? = some (.error (.notFound "b")) ∧ (∀ turn ∈ r.turns, turn.outcome? = none) ∧
      ∃ l, r.session.locate? = some (.ok l) := by
  intro files refuse s r
  have hmissing : s.locate? = some (.error (.notFound "b")) := by decide +kernel
  have hquiet : ∀ turn ∈ r.turns, turn.outcome? = none := by decide +kernel
  refine ⟨hmissing, hquiet, ?_⟩
  refine (((run_locate Memory.storage.reader Memory.storage Memory.storage.reader Memory.storage
    files _ files _).2.2.2.2 hquiet).2.2 "b" hmissing).mpr
      ⟨.ofText "dir/b", [66, 10, 67], ?_, by decide +kernel⟩
  have hdeed : r.deeds = [.committed .sources "a" "new", .loaded (.ofText "dir/b") [66, 10, 67]] :=
    rfl
  rw [hdeed]
  simp

end SourceDesk
