import SourceDesk.Proofs.Session.Saving
import SourceDesk.Proofs.Session.Translation

/-! Where targets are kept. A target that was just translated has no path; it gets one when it is
saved to a path of its own or exported, and keeps the last that it was given. What could not be
written gets none: a failure leaves it, and all that comes after it, as it was. -/
namespace SourceDesk

-- no proof here depends on the tables of the charsets, which unification would go through
attribute [local irreducible] encodeText?

variable {σ : Type}

/-! ### Writes -/

/-- What a deed has written, and where. -/
def Deed.write? : Deed → Option (Path × Bytes)
  | .written _ p data => some (p, data)
  | _ => none

/-- The deeds of a course tell what the storage took, and nothing else. -/
theorem Course.written [FurtherCharsets] {storage : Storage σ} {r r' : Recorded σ} {s t : Session}
    {ds : List Deed}
    (h : Course storage.recorded.reader storage.recorded r s ds r' t) :
    r'.written = r.written ++ ds.filterMap Deed.write? := by
  induction h with
  | done => simp
  | @refused r r₁ _ _ _ _ hrefused _ ih =>
      have hsame : r₁.written = r.written := by
        rcases hrefused with ⟨p, reason, hread⟩ | ⟨p, data, reason, hwrite⟩
        · rw [show r = r₁ from congrArg Prod.fst hread]
        · simp [Recorded.written, (Storage.write_recorded_error hwrite).2]
      rw [ih, hsame]
  | @deed r r₁ _ _ _ d ds _ hmoves _ ih =>
      have hfirst : r₁.written = r.written ++ d.write?.toList := by
        cases d with
        | loaded p data =>
            rw [show r = r₁ from congrArg Prod.fst hmoves]
            simp [Deed.write?]
        | written seat p data =>
            simp [Recorded.written, (Storage.write_recorded_ok hmoves).2, Deed.write?]
        | _ =>
            rw [show r₁ = r from hmoves]
            simp [Deed.write?]
      rw [ih, hfirst, filterMap_cons_eq, List.append_assoc]

/-! ### Paths of targets -/

/-- The path that a deed gives to the target in a slot. -/
def Deed.placed? (slot : Nat) : Deed → Option Path
  | .written seat p _ => if seat = ⟨.targets, slot⟩ then some p else none
  | _ => none

namespace Session

/-- A session with the targets of another one, each at the last of the paths that it was given
in between, or where it was before if it was given none. -/
def Places (s t : Session) (given : Nat → List Path) : Prop :=
  ∀ slot : Nat, (t.targets.documents[slot]?).map Document.path =
    (s.targets.documents[slot]?).map fun d => (given slot).getLast?.or d.path

variable {s t u : Session} {given more : Nat → List Path}

theorem Places.of_paths
    (h : t.targets.documents.map Document.path = s.targets.documents.map Document.path) :
    s.Places t fun _ => [] := by
  intro slot
  have hslot := congrArg (fun ps : List (Option Path) => ps[slot]?) h
  simpa using hslot

theorem Places.trans (h : s.Places t given) (h' : t.Places u more) :
    s.Places u fun slot => given slot ++ more slot := by
  intro slot
  have hmap := congrArg (Option.map fun old => (more slot).getLast?.or old) (h slot)
  rw [Option.map_map, Option.map_map] at hmap
  rw [h' slot, List.getLast?_append]
  simpa only [Function.comp_def, Option.or_assoc] using hmap

theorem Places.done (s : Session) : s.Places s fun _ => [] := .of_paths rfl

theorem after_places (s : Session) {d : Deed} (hd : d.installs = false) :
    s.Places (s.after d) fun slot => (d.placed? slot).toList := by
  cases d with
  | loaded p data => exact .of_paths rfl
  | committed which name content =>
      cases which with
      | sources => exact .of_paths rfl
      | targets =>
          refine .of_paths ?_
          show (s.targets.modify name fun d => d.commit content).documents.map _ = _
          unfold DocumentSet.modify
          split
          · exact DocumentSet.map_modify_eq fun d _ => by unfold Document.commit; split <;> rfl
          · rfl
  | written seat p data =>
      obtain ⟨which, i⟩ := seat
      cases which with
      | sources =>
          have hnone : (fun slot => ((Deed.written ⟨.sources, i⟩ p data).placed? slot).toList) =
              fun _ => [] := by
            funext slot
            simp [Deed.placed?]
          rw [hnone]
          exact .of_paths rfl
      | targets =>
          intro slot
          show ((s.targets.documents.modify i (.stored p))[slot]?).map _ = _
          by_cases hslot : i = slot
          · subst hslot
            cases hd : s.targets.documents[i]? <;> simp [hd, Deed.placed?, Document.stored]
          · rw [List.getElem?_modify_ne _ _ hslot]
            simp [Deed.placed?, hslot]
  | replaced targets => cases hd
  | translated language namespaceHint o => cases hd
  | translatedAgain catalog o => cases hd

end Session

section

variable [FurtherCharsets] {reader : Reader σ} {storage : Storage σ} {store store' : σ}
variable {s t : Session}

theorem Course.places {ds : List Deed} (h : Course reader storage store s ds store' t)
    (hd : ∀ d ∈ ds, d.installs = false) :
    s.Places t fun slot => ds.filterMap (Deed.placed? slot) := by
  induction h with
  | done => exact .done _
  | refused _ _ ih => exact ih hd
  | @deed _ _ _ s _ d ds _ _ _ ih =>
      have hfirst := s.after_places (hd d (by simp))
      have hrest := ih fun e he => hd e (by simp [he])
      simp only [filterMap_cons_eq]
      exact hfirst.trans hrest

end

/-! ### Turns -/

namespace Turn

/-- Whether a turn puts another set in place of the targets. -/
def installs (t : Turn) : Bool := t.outcome?.isSome || t.operation.isReplacement

/-- The paths that a turn gives to the target in a slot: where it was saved to, or exported. -/
def placements (t : Turn) (slot : Nat) : List Path :=
  match t.operation with
  | .saveTargetAs .. | .exportTargets _ => t.deeds.filterMap (Deed.placed? slot)
  | _ => []

end Turn

section

variable [FurtherCharsets] (reader : Reader σ) (storage : Storage σ) {store : σ} {s : Session}

/-- A save writes to the paths that are there. -/
theorem Session.save_places (s : Session) (store : σ) (which : Shelf) :
    s.Places (s.save storage store which).2.session fun _ => [] := by
  obtain ⟨saving, before, after, ws, mid, hsaved, -, hsession, -⟩ :=
    save_saved storage which s store rfl
  refine .of_paths ?_
  rw [hsession]
  cases which with
  | sources => rfl
  | targets =>
      rw [documents_targets_setDocuments, hsaved.documents_eq,
        show s.targets.documents = _ from hsaved.docs_eq, List.map_append, List.map_append,
        List.map_map]
      congr 1
      exact List.map_congr_left fun d _ => d.path_saved

theorem perform_places {op : Operation} {p : σ × Step Operation.Result}
    (hp : op.perform reader storage store s = p) {turn : Turn}
    (hturn : turn = ⟨op, p.2.result, p.2.events⟩) (h : turn.installs = false) :
    s.Places p.2.session turn.placements := by
  subst hp hturn
  obtain ⟨ho, hop⟩ := Bool.or_eq_false_iff.mp h
  rw [Option.isSome_eq_false_iff, Option.isNone_iff_eq_none] at ho
  have hcourse := (perform_course reader storage op store s).places (Turn.deeds_quiet ho hop).1
  -- the deeds of a save are writes as well, but they give the targets no path that is new
  cases op with
  | saveTargetAs name p => exact hcourse
  | exportTargets dir => exact hcourse
  | save which => exact s.save_places storage store which
  | load paths => exact .of_paths rfl
  | commit which name content => exact hcourse
  | replaceTargets targets wellFormed => cases hop
  | resolve p => exact hcourse
  | locate => exact hcourse
  | translate translator language namespaceHint =>
      rw [Turn.deeds_eq_nil ho rfl] at hcourse
      exact hcourse
  | translateAgain translator catalog =>
      rw [Turn.deeds_eq_nil ho rfl] at hcourse
      exact hcourse

/-! ### Runs -/

theorem run_places {ops : List Operation} {r : Run σ} (hr : run reader storage store s ops = r)
    (h : ∀ t ∈ r.turns, t.installs = false) :
    s.Places r.session fun slot => r.turns.flatMap fun t => t.placements slot := by
  induction ops generalizing store s r with
  | nil =>
      subst hr
      exact .done s
  | cons op ops ih =>
      rcases hp : op.perform reader storage store s with ⟨store', step⟩
      rw [run_cons _ _ _ _ _ _ hp] at hr
      subst hr
      have hfirst := perform_places reader storage hp rfl (h _ (by simp))
      have hrest := ih rfl fun t ht => h t (List.mem_cons_of_mem _ ht)
      exact hfirst.trans hrest

theorem run_untargeted {ops : List Operation} {r : Run σ}
    (hr : run reader storage store .empty ops = r) (h : ∀ t ∈ r.turns, t.installs = false) :
    r.session.targets.documents = [] := by
  have hplaces := run_places reader storage hr h 0
  rw [show Session.empty.targets.documents[0]? = none from rfl, Option.map_none,
    Option.map_eq_none_iff] at hplaces
  simpa using hplaces

/-- Since the last attempt to translate, each target is where it was put last. -/
theorem run_path {ops : List Operation} {r : Run σ} (hr : run reader storage store s ops = r)
    {before since : List Turn} {turn : Turn} {o : Outcome}
    (hturns : r.turns = before ++ turn :: since) (ho : turn.outcome? = some o)
    (hsince : ∀ t ∈ since, t.installs = false) {slot : Nat} {d : Document}
    (hd : r.session.targets.documents[slot]? = some d) :
    d.path = (since.flatMap fun t => t.placements slot).getLast? := by
  subst hr
  obtain ⟨ops₁, op, ops₂, r, p, rfl, hr, -, hp, rfl, rfl⟩ := run_split reader storage hturns
  subst hp
  obtain ⟨translator, language, namespaceHint, -, hsession, -, rfl⟩ :=
    perform_attempt reader storage (Turn.outcome?_eq_some_iff.mp ho)
  -- what comes after the turn is a run of its own, without an attempt
  have hplaces := run_places reader storage rfl hsince slot
  rw [run_append _ _ _ _ _ _ hr, run_cons _ _ _ _ _ _ rfl] at hd
  rw [hd] at hplaces
  obtain ⟨e, he, hpath⟩ := Option.map_eq_some_iff.mp hplaces.symm
  have hfresh : e.path = none := by
    rw [hsession] at he
    obtain ⟨t, rfl⟩ := Session.generated_of_mem_install (List.mem_of_getElem? he)
    rfl
  rw [← hpath, hfresh, Option.or_none]

end

/-! ### Failures -/

/-- The target in a slot, with those before it and those behind it. -/
theorem exists_split_of_slot {docs : List Document} {slot : Nat} {d : Document}
    (h : docs[slot]? = some d) : ∃ before after, docs = before ++ d :: after ∧
      before.length = slot := by
  obtain ⟨hlt, rfl⟩ := List.getElem?_eq_some_iff.mp h
  refine ⟨docs.take slot, docs.drop (slot + 1), ?_, List.length_take_of_le (Nat.le_of_lt hlt)⟩
  rw [List.getElem_cons_drop, List.take_append_drop]

section

variable [FurtherCharsets]

/-- Why a document is not written to a path: it has no bytes, and is not even offered, or it is
offered and refused. -/
inductive Document.Unwritten (d : Document) (p : Path) : List WriteCall → String → Prop
  | unencodable : encodeText? d.content d.encoding = none →
    Unwritten d p [] ("content of " ++ d.name ++ " is not representable in " ++ d.encoding)
  | refused {data reason} : encodeText? d.content d.encoding = some data →
    Unwritten d p [⟨p, data, some reason⟩] reason

theorem Document.writeTo_recorded (storage : Storage σ) (store : σ) (d : Document) (seat : Seat)
    (p : Path) {w : Written (Recorded σ)} (h : d.writeTo storage.recorded ⟨store, []⟩ seat p = w) :
    (∃ reason, d.Unwritten p w.store.calls reason ∧ w.result = .error (.storage p reason)) ∨
      ∃ data, encodeText? d.content d.encoding = some data ∧
        w.store.calls = [⟨p, data, none⟩] ∧ w.result = .ok { d with dirty := false } := by
  unfold writeTo at h
  cases henc : encodeText? d.content d.encoding with
  | none =>
      simp only [henc] at h
      subst h
      exact .inl ⟨_, .unencodable henc, rfl⟩
  | some data =>
      rcases hw : storage.recorded.write ⟨store, []⟩ p data with ⟨r, reason | ⟨⟩⟩
      · simp only [henc, hw] at h
        subst h
        refine .inl ⟨reason, ?_, rfl⟩
        rw [(Storage.write_recorded_error hw).2]
        exact .refused henc
      · simp only [henc, hw] at h
        subst h
        exact .inr ⟨data, rfl, (Storage.write_recorded_ok hw).2, rfl⟩

namespace Session

/-- An export that goes through: every target is written once, in order, and has its path and
no changes then. -/
structure ExportsAll (s : Session) (dir : Path) (t : Recorded σ × Step (List Path))
    (ws : List (Path × Bytes)) : Prop where
  writes_eq : s.targets.documents.map (exportWrite? dir) = ws.map some
  calls : t.1.calls = ws.map .done
  result : t.2.result = .ok (s.targets.documents.map (exportPath dir))
  session : t.2.session =
    s.setDocuments .targets (s.targets.documents.map fun d => d.stored (exportPath dir d))

/-- An export that ends at the first target that is not written: those before it are written and
have their paths, and it and all behind it stay as they were. -/
structure ExportStopsAt (s : Session) (dir : Path) (t : Recorded σ × Step (List Path))
    (ws : List (Path × Bytes)) (before : List Document) (d : Document) (after : List Document) :
    Prop where
  docs_eq : s.targets.documents = before ++ d :: after
  writes_eq : before.map (exportWrite? dir) = ws.map some
  fails : ∃ calls reason, d.Unwritten (exportPath dir d) calls reason ∧
    t.1.calls = ws.map .done ++ calls ∧ t.2.result = .error (.storage (exportPath dir d) reason)
  session : t.2.session = s.setDocuments .targets
    (before.map (fun d => d.stored (exportPath dir d)) ++ d :: after)

/-- What saving a target to a path of its own comes to. Only one that goes well changes anything,
and then only the path and the mark of the target. -/
inductive SavesAs (s : Session) (name : String) (p : Path) (t : Recorded σ × Step Unit) : Prop
  | unknown : s.targets.get? name = none → t.1.calls = [] →
    t.2.result = .error (.notFound name) → t.2.session = s → SavesAs s name p t
  | failed {d reason} : s.targets.get? name = some d → d.Unwritten p t.1.calls reason →
    t.2.result = .error (.storage p reason) → t.2.session = s → SavesAs s name p t
  | done {before d after data} : s.targets.slot? name = some before.length →
    s.targets.documents = before ++ d :: after → encodeText? d.content d.encoding = some data →
    t.1.calls = [⟨p, data, none⟩] → t.2.result = .ok () →
    t.2.session = s.setDocuments .targets (before ++ d.stored p :: after) → SavesAs s name p t

variable {storage : Storage σ} {store : σ} {s : Session} {dir : Path}

/-- An export that is not kept back by a name goes through or stops. -/
theorem exportTargets_ends {t : Recorded σ × Step (List Path)}
    (h : s.exportTargets storage.recorded ⟨store, []⟩ dir = t)
    (hin : ∀ d ∈ s.targets.documents, ¬LeadsOut d.name) :
    (∃ ws, s.ExportsAll dir t ws) ∨
      ∃ ws before d after, s.ExportStopsAt dir t ws before d after := by
  rcases exportTargets_cases storage.recorded dir s ⟨store, []⟩ h with
    ⟨before, bad, after, hdocs, hbad, -⟩ |
    ⟨-, saving, before, after, ws, mid, hexported, hstore, hsession, hresult⟩
  · exact absurd hbad (hin bad (by simp [hdocs]))
  have hdocs := hexported.docs_eq
  rw [hexported.documents_eq] at hsession
  rcases hexported.calls_cases with ⟨hcalls, rfl, hfailure⟩ |
    ⟨d, rest, rfl, henc, hcalls, hfailure⟩ | ⟨d, rest, data, reason, rfl, henc, hcalls, hfailure⟩
  · rw [List.append_nil] at hdocs hsession
    refine .inl ⟨ws, ?_, by rw [hstore, hcalls], ?_, by rw [hsession, hdocs]⟩
    · rw [hdocs, hexported.writes_eq]
    · rw [hresult, hfailure, hexported.written_eq, hdocs]
  · exact .inr ⟨ws, before, d, rest, hdocs, hexported.writes_eq,
      ⟨[], _, .unencodable henc, by rw [hstore, hcalls, List.append_nil], by
        rw [hresult, hfailure]⟩, hsession⟩
  · exact .inr ⟨ws, before, d, rest, hdocs, hexported.writes_eq,
      ⟨_, reason, .refused henc, by rw [hstore, hcalls], by rw [hresult, hfailure]⟩, hsession⟩

/-- A record changes nothing of saving a target to a path of its own. -/
theorem saveTargetAs_recorded (storage : Storage σ) (s : Session) (r : Recorded σ) (name : String)
    (p : Path) :
    ((s.saveTargetAs storage.recorded r name p).1.store,
        (s.saveTargetAs storage.recorded r name p).2) = s.saveTargetAs storage r.store name p := by
  unfold saveTargetAs
  cases s.targets.find? name with
  | none => rfl
  | some found =>
      simp only [Document.writeTo, Storage.recorded]
      cases encodeText? found.2.content found.2.encoding with
      | none => rfl
      | some data =>
          rcases hw : storage.write r.store p data with ⟨store, reason | ⟨⟩⟩ <;> simp [hw]

theorem saveTargetAs_cases (storage : Storage σ) (s : Session) (store : σ) (name : String)
    (p : Path) : s.SavesAs name p (s.saveTargetAs storage.recorded ⟨store, []⟩ name p) := by
  cases hslot : s.targets.slot? name with
  | none =>
      have hfind : s.targets.find? name = none := by simp [DocumentSet.find?, hslot]
      simp only [saveTargetAs, hfind]
      exact .unknown (by simp [DocumentSet.get?, hslot]) rfl rfl rfl
  | some slot =>
      cases hdoc : s.targets.documents[slot]? with
      | none =>
          have hfind : s.targets.find? name = none := by simp [DocumentSet.find?, hslot, hdoc]
          simp only [saveTargetAs, hfind]
          exact .unknown (by simp [DocumentSet.get?, hslot, hdoc]) rfl rfl rfl
      | some d =>
          have hfind : s.targets.find? name = some (slot, d) := by
            simp [DocumentSet.find?, hslot, hdoc]
          have hget : s.targets.get? name = some d := by simp [DocumentSet.get?, hslot, hdoc]
          simp only [saveTargetAs, hfind]
          rcases Document.writeTo_recorded storage store d ⟨.targets, slot⟩ p rfl with
            ⟨reason, hunwritten, hresult⟩ | ⟨data, henc, hcalls, hresult⟩
          · simp only [hresult]
            exact .failed hget hunwritten rfl rfl
          · obtain ⟨before, after, hdocs, rfl⟩ := exists_split_of_slot hdoc
            simp only [hresult]
            refine .done hslot hdocs henc hcalls rfl ?_
            simp only [DocumentSet.modify_eq_of_slot hslot, hdocs, modify_append_cons]
            rfl

end Session

/-! ### Histories -/

/-- In every session that is reached, a target that a translation has left is where it was saved
or exported last since then, and has no path if it never was. A save writes the targets with
changes there. An export writes targets up to the first that is not written and gives a path to
these only, and saving a target to a path of its own changes nothing else, and nothing at all if
it fails. -/
theorem run_targets_placed (reader : Reader σ) (storage : Storage σ) (store : σ)
    (ops : List Operation) :
    let r := run reader storage store .empty ops
    ((∀ t ∈ r.turns, t.installs = false) → r.session.targets.documents = []) ∧
    (∀ before turn since o, r.turns = before ++ turn :: since → turn.outcome? = some o →
      (∀ t ∈ since, t.installs = false) →
      ∀ (slot : Nat) d, r.session.targets.documents[slot]? = some d →
        d.path = (since.flatMap fun t => t.placements slot).getLast?) ∧
    -- a save: what it asked the storage to write
    (∀ {τ : Type} (storage' : Storage τ) (store' : τ),
      let t := r.session.save storage'.recorded ⟨store', []⟩ .targets
      (t.1.store, t.2) = r.session.save storage' store' .targets ∧
      ∃ tried, tried <+: r.session.pending .targets ∧
        (t.1.calls.map fun c => some (c.path, c.data)) = tried.map Document.saveWrite? ∧
        ∀ count, t.2.result = .ok count → tried = r.session.pending .targets) ∧
    -- an export: the deeds tell what the storage took, and it ends in one of two ways
    (∀ {τ : Type} (storage' : Storage τ) (store' : τ) (dir : Path),
      let t := r.session.exportTargets storage'.recorded ⟨store', []⟩ dir
      (t.1.store, t.2) = r.session.exportTargets storage' store' dir ∧
      t.1.written = (t.2.events.filterMap Event.deed?).filterMap Deed.write? ∧
      ((∀ d ∈ r.session.targets.documents, ¬Session.LeadsOut d.name) →
        (∃ ws, r.session.ExportsAll dir t ws) ∨
          ∃ ws before d after, r.session.ExportStopsAt dir t ws before d after)) ∧
    -- a target saved to a path of its own
    (∀ {τ : Type} (storage' : Storage τ) (store' : τ) (name : String) (p : Path),
      let t := r.session.saveTargetAs storage'.recorded ⟨store', []⟩ name p
      (t.1.store, t.2) = r.session.saveTargetAs storage' store' name p ∧
      t.1.written = (t.2.events.filterMap Event.deed?).filterMap Deed.write? ∧
      r.session.SavesAs name p t) := by
  intro r
  refine ⟨run_untargeted reader storage rfl, ?_, ?_, ?_, ?_⟩
  · intro before turn since o hturns ho hsince slot d hd
    exact run_path reader storage rfl hturns ho hsince hd
  · intro τ storage' store' t
    exact ⟨Session.save_recorded storage' r.session .targets ⟨store', []⟩,
      Session.save_calls storage' r.session .targets store'⟩
  · intro τ storage' store' dir t
    have hcourse := exportTargets_course storage'.recorded.reader storage'.recorded r.session
      ⟨store', []⟩ dir
    exact ⟨Session.exportTargets_recorded storage' dir r.session ⟨store', []⟩, hcourse.written,
      Session.exportTargets_ends rfl⟩
  · intro τ storage' store' name p t
    have hcourse := saveTargetAs_course storage'.recorded.reader storage'.recorded r.session
      ⟨store', []⟩ name p
    exact ⟨Session.saveTargetAs_recorded storage' r.session ⟨store', []⟩ name p, hcourse.written,
      Session.saveTargetAs_cases storage' r.session store' name p⟩

end

attribute [local instance] FurtherCharsets.none in
-- an export that is refused at the second target leaves the third where it was saved before
example :
    let give : Translator := fun _ => ⟨.targets [⟨"a", "1"⟩, ⟨"b", "2"⟩, ⟨"c", "3"⟩], []⟩
    let storage := Storage.judging fun p =>
      if p = .ofText "out/b" then .error "denied" else .ok ()
    let ops : List Operation := [.translate give "go" "", .saveTargetAs "c" (.ofText "mine"),
      .exportTargets (.ofText "out")]
    (run storage.reader storage [] .empty ops).session.targets.documents.map Document.path =
      [some (.ofText "out/a"), none, some (.ofText "mine")] := by
  decide +kernel

end SourceDesk
