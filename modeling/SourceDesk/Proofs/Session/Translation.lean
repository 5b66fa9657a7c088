import SourceDesk.Proofs.Document.Follows
import SourceDesk.Proofs.Session.Attempt
import SourceDesk.Proofs.Session.Course
import SourceDesk.Storage.Memory

/-! What is left of translations. Targets and error are those of the last attempt, as
long as nobody replaces the targets: what happens between attempts is at most that the
texts of targets are edited. -/
namespace SourceDesk

namespace Turn

/-- The outcome of a turn, if it was an attempt to translate. -/
def outcome? (t : Turn) : Option Outcome := t.result.toOption.bind Operation.Result.outcome?

/-- The text that was handed in for a target. -/
def targetText? (t : Turn) : Option NamedText :=
  match t.operation with
  | .commit .targets name content => some ⟨name, content⟩
  | _ => none

/-- The language and the hint that were asked for. -/
def request? (t : Turn) : Option (String × String) :=
  match t.operation with
  | .translate _ language namespaceHint => some (language, namespaceHint)
  | _ => none

/-- The first language of the catalog of an attempt. -/
def offer? (t : Turn) : Option String :=
  match t.operation with
  | .translateAgain _ catalog => t.outcome?.bind fun _ => catalog.first?
  | _ => none

end Turn

/-- Whether an operation replaces the targets without an attempt. -/
def Operation.isReplacement : Operation → Bool
  | .replaceTargets .. => true
  | _ => false

namespace Deed

/-- Whether a deed puts another set in place of the targets. -/
def installs : Deed → Bool
  | .replaced _ | .translated .. | .translatedAgain .. => true
  | _ => false

/-- The text that a target gets, if it is there. -/
def targetText? : Deed → Option NamedText
  | .committed .targets name content => some ⟨name, content⟩
  | _ => none

end Deed

/-! ### Between attempts -/

/-- What a session keeps of another one while nothing is installed and texts are handed
in for targets. -/
structure Session.Keeps (s t : Session) (texts : List NamedText) : Prop where
  lastError : t.lastError = s.lastError
  language : t.language = s.language
  namespaceHint : t.namespaceHint = s.namespaceHint
  keys : t.targets.keys = s.targets.keys
  follows : ∀ {log}, s.targets.Follows log → t.targets.Follows (log ++ texts)

namespace Session

variable {s t u : Session} {texts more : List NamedText}

theorem Keeps.refl (s : Session) : s.Keeps s [] :=
  ⟨rfl, rfl, rfl, rfl, fun h => by simpa using h⟩

theorem Keeps.trans (h : s.Keeps t texts) (h' : t.Keeps u more) : s.Keeps u (texts ++ more) := by
  refine ⟨h'.lastError.trans h.lastError, h'.language.trans h.language,
    h'.namespaceHint.trans h.namespaceHint, h'.keys.trans h.keys, fun hlog => ?_⟩
  rw [← List.append_assoc]
  exact h'.follows (h.follows hlog)

/-- A session whose targets are what they were. -/
theorem Keeps.of_targets (hlast : t.lastError = s.lastError) (hlang : t.language = s.language)
    (hhint : t.namespaceHint = s.namespaceHint) (htargets : t.targets = s.targets) :
    s.Keeps t [] :=
  ⟨hlast, hlang, hhint, by rw [htargets], fun h => by simpa [htargets] using h⟩

theorem after_keeps (s : Session) {d : Deed} (hd : d.installs = false) :
    s.Keeps (s.after d) d.targetText?.toList := by
  cases d with
  | loaded p data => exact .of_targets rfl rfl rfl rfl
  | committed which name content =>
      cases which with
      | sources => exact .of_targets rfl rfl rfl rfl
      | targets => exact ⟨rfl, rfl, rfl, DocumentSet.keys_modify, fun h => h.commit name content⟩
  | written seat p data =>
      obtain ⟨which, slot⟩ := seat
      cases which with
      | sources => exact .of_targets rfl rfl rfl rfl
      | targets =>
          refine ⟨rfl, rfl, rfl, DocumentSet.keys_modifySlot, fun {log} h => ?_⟩
          rw [show (Deed.written ⟨.targets, slot⟩ p data).targetText?.toList = [] from rfl,
            List.append_nil]
          exact h.modifySlot (f := .stored p) (fun _ => rfl) slot
  | replaced targets => cases hd
  | translated language namespaceHint o => cases hd
  | translatedAgain catalog o => cases hd

end Session

section

variable [FurtherCharsets] {σ : Type} {reader : Reader σ} {storage : Storage σ} {store store' : σ}
variable {s t : Session}

theorem Course.keeps {ds : List Deed} (h : Course reader storage store s ds store' t)
    (hd : ∀ d ∈ ds, d.installs = false) : s.Keeps t (ds.filterMap Deed.targetText?) := by
  induction h with
  | done => exact .refl _
  | refused _ _ ih => exact ih hd
  | @deed _ _ _ s _ d ds _ _ _ ih =>
      have hfirst := s.after_keeps (hd d (by simp))
      have hrest := ih fun e he => hd e (by simp [he])
      rw [filterMap_cons_eq]
      exact hfirst.trans hrest

end

/-! ### Turns -/

/-- Deeds that show in events edit and install nothing. -/
theorem deeds_of_events (es : List Event) :
    (∀ d ∈ es.filterMap Event.deed?, d.installs = false) ∧
      (es.filterMap Event.deed?).filterMap Deed.targetText? = [] := by
  have hall : ∀ d ∈ es.filterMap Event.deed?, d.installs = false ∧ d.targetText? = none := by
    intro d hd
    obtain ⟨e, -, he⟩ := List.mem_filterMap.mp hd
    rcases Event.deed?_cases he with ⟨p, data, rfl⟩ | ⟨seat, p, data, rfl⟩
    · exact ⟨rfl, rfl⟩
    · exact ⟨rfl, rfl⟩
  exact ⟨fun d hd => (hall d hd).1, List.filterMap_eq_nil_iff.mpr fun d hd => (hall d hd).2⟩

theorem Turn.outcome?_eq_some_iff {t : Turn} {o : Outcome} :
    t.outcome? = some o ↔ t.result = .ok (.outcome o) := by
  constructor
  · intro h
    obtain ⟨op, result, events⟩ := t
    rcases result with failure | result
    · cases h
    · cases result with
      | outcome o' =>
          obtain rfl : o' = o := Option.some.inj h
          rfl
      | _ => cases h
  · intro h
    simp [outcome?, h, Except.toOption, Operation.Result.outcome?]

/-- A translation that comes to no attempt does nothing. -/
theorem Turn.deeds_eq_nil {t : Turn} (ho : t.outcome? = none)
    (hop : t.operation.translator?.isSome) : t.deeds = [] := by
  have hresult : ∀ o, t.result ≠ .ok (.outcome o) := by
    intro o h
    rw [outcome?_eq_some_iff.mpr h] at ho
    cases ho
  obtain ⟨op, result, events⟩ := t
  cases op with
  | translate | translateAgain =>
      -- `hresult` rules out the one answer that is a deed
      simp only [deeds]
  | _ => cases hop

/-- The deeds of a turn that was no attempt and no replacement. -/
theorem Turn.deeds_quiet {t : Turn} (ho : t.outcome? = none)
    (hop : t.operation.isReplacement = false) :
    (∀ d ∈ t.deeds, d.installs = false) ∧
      t.deeds.filterMap Deed.targetText? = t.targetText?.toList := by
  obtain ⟨op, result, events⟩ := t
  cases op with
  | load paths => exact deeds_of_events events
  | save which => exact deeds_of_events events
  | saveTargetAs name p => exact deeds_of_events events
  | exportTargets dir => exact deeds_of_events events
  | commit which name content =>
      refine ⟨fun d hd => ?_, ?_⟩
      · rw [List.mem_singleton.mp hd]
        rfl
      · cases which <;> rfl
  | replaceTargets targets wellFormed => cases hop
  | resolve p => exact ⟨by simp [deeds], rfl⟩
  | locate => exact ⟨by simp [deeds], rfl⟩
  | translate translator language namespaceHint =>
      rw [deeds_eq_nil ho rfl]
      exact ⟨by simp, rfl⟩
  | translateAgain translator catalog =>
      rw [deeds_eq_nil ho rfl]
      exact ⟨by simp, rfl⟩

section

variable [FurtherCharsets] {σ : Type} (reader : Reader σ) (storage : Storage σ)
variable {store : σ} {s : Session}

theorem perform_keeps {op : Operation} {p : σ × Step Operation.Result}
    (hp : op.perform reader storage store s = p) {turn : Turn}
    (hturn : turn = ⟨op, p.2.result, p.2.events⟩) (ho : turn.outcome? = none)
    (hop : op.isReplacement = false) : s.Keeps p.2.session turn.targetText?.toList := by
  subst hp hturn
  have hquiet := Turn.deeds_quiet ho hop
  have hkeeps := (perform_course reader storage op store s).keeps hquiet.1
  rwa [hquiet.2] at hkeeps

theorem run_keeps {ops : List Operation} (hops : ∀ op ∈ ops, op.isReplacement = false)
    {r : Run σ} (hr : run reader storage store s ops = r) (ho : ∀ t ∈ r.turns, t.outcome? = none) :
    s.Keeps r.session (r.turns.filterMap Turn.targetText?) := by
  induction ops generalizing store s r with
  | nil =>
      subst hr
      exact .refl s
  | cons op ops ih =>
      rcases hp : op.perform reader storage store s with ⟨store', step⟩
      rw [run_cons _ _ _ _ _ _ hp] at hr
      subst hr
      have hfirst := perform_keeps reader storage hp rfl (ho _ (by simp)) (hops op (by simp))
      have hrest := ih (fun op' hop' => hops op' (by simp [hop'])) rfl
        (fun t ht => ho t (List.mem_cons_of_mem _ ht))
      rw [filterMap_cons_eq]
      exact hfirst.trans hrest

end

/-! ### The last attempt -/

/-- The texts of an outcome. -/
def Outcome.texts : Outcome → List NamedText
  | .success texts => texts
  | .failure _ => []

/-- What an attempt leaves in a session, with the texts handed in for targets since. -/
structure Session.Shows (s : Session) (o : Outcome) (edits : List NamedText) : Prop where
  lastError : s.lastError = o.diagnostic?
  keys : s.targets.keys = (o.texts.map NamedText.name).eraseDups
  follows : s.targets.Follows (o.texts ++ edits)

namespace Session

variable {s t : Session} {o : Outcome} {edits more : List NamedText}

theorem shows_empty : Session.empty.Shows (.success []) [] := ⟨rfl, rfl, .empty _⟩

theorem install_shows (s : Session) (o : Outcome) : (s.install o).Shows o [] := by
  cases o with
  | failure d => exact ⟨rfl, rfl, .empty _⟩
  | success texts =>
      have hnames : (texts.map Document.generated).map Document.name =
          texts.map NamedText.name := by simp [Document.generated, Function.comp_def]
      have htexts : (texts.map Document.generated).map Document.toText = texts := by
        simp [Document.generated, Document.toText, Function.comp_def]
      refine ⟨rfl, ?_, ?_⟩
      · exact (DocumentSet.keys_ofList _).trans (by rw [hnames]; rfl)
      · have hfollows := DocumentSet.follows_ofList (texts.map Document.generated)
        rw [htexts] at hfollows
        rw [show (Outcome.success texts).texts ++ [] = texts from List.append_nil _]
        exact hfollows

theorem Shows.keep (h : s.Shows o edits) (hk : s.Keeps t more) : t.Shows o (edits ++ more) := by
  refine ⟨hk.lastError.trans h.lastError, hk.keys.trans h.keys, ?_⟩
  rw [← List.append_assoc]
  exact hk.follows h.follows

theorem Shows.names (h : s.Shows o edits) :
    s.targets.names = (o.texts.map NamedText.name).eraseDups := by
  rw [← h.keys]
  exact h.follows.named

/-- Without texts there are no targets. -/
theorem Shows.targets_eq_empty (h : s.Shows o edits) (ho : o.texts = []) :
    s.targets = .empty := by
  have hkeys : s.targets.keys = [] := by simpa [ho] using h.keys
  exact h.follows.wellFormed.eq_empty hkeys

end Session

@[simp] theorem Session.language_install (s : Session) (o : Outcome) :
    (s.install o).language = s.language := by
  cases o <;> rfl

@[simp] theorem Session.namespaceHint_install (s : Session) (o : Outcome) :
    (s.install o).namespaceHint = s.namespaceHint := by
  cases o <;> rfl

section

variable [FurtherCharsets] {σ : Type} (reader : Reader σ) (storage : Storage σ)
variable {store : σ} {s : Session}

theorem perform_shows {op : Operation} {p : σ × Step Operation.Result} {o : Outcome}
    (hp : op.perform reader storage store s = p) {turn : Turn}
    (hturn : turn = ⟨op, p.2.result, p.2.events⟩) (ho : turn.outcome? = some o) :
    p.2.session.Shows o [] := by
  subst hp hturn
  obtain ⟨translator, language, namespaceHint, -, hsession, -, rfl⟩ :=
    perform_attempt reader storage (Turn.outcome?_eq_some_iff.mp ho)
  rw [hsession]
  exact Session.install_shows _ _

/-- Without a translator there is no attempt. -/
theorem perform_quiet {op : Operation} {p : σ × Step Operation.Result}
    (hp : op.perform reader storage store s = p) {turn : Turn}
    (hturn : turn = ⟨op, p.2.result, p.2.events⟩) (hop : op.translator? = none) :
    turn.outcome? = none := by
  subst hp hturn
  cases ho : Turn.outcome? _ with
  | none => rfl
  | some o =>
      obtain ⟨translator, _, _, hsome, -⟩ :=
        perform_attempt reader storage (Turn.outcome?_eq_some_iff.mp ho)
      rw [hop] at hsome
      cases hsome

/-! ### Language and hint -/

theorem perform_language {op : Operation} {p : σ × Step Operation.Result}
    (hp : op.perform reader storage store s = p) {turn : Turn}
    (hturn : turn = ⟨op, p.2.result, p.2.events⟩) :
    p.2.session.language = (turn.request?.map Prod.fst).or (s.language.or turn.offer?) ∧
      p.2.session.namespaceHint = (turn.request?.map Prod.snd).getD s.namespaceHint := by
  have hkeeps : op.translator? = none → op.isReplacement = false →
      s.Keeps p.2.session turn.targetText?.toList := fun hop hrepl =>
    perform_keeps reader storage hp hturn (perform_quiet reader storage hp hturn hop) hrepl
  cases op with
  | translate translator language namespaceHint =>
      subst hp hturn
      simp [Operation.perform, Session.translate, Turn.request?]
  | translateAgain translator catalog =>
      subst hp hturn
      simp only [Operation.perform, Step.map, Session.translateAgain, Turn.request?, Turn.offer?]
      cases hlang : s.language with
      | some language => simp [Session.translate]
      | none =>
          cases hdef : Catalog.default catalog with
          | error failure => simp [Turn.outcome?, Except.map, Except.toOption, hlang]
          | ok language =>
              simp [Session.translate, Turn.outcome?, Except.map, Except.toOption,
                Operation.Result.outcome?, Catalog.default_eq_ok_iff.mp hdef]
  | replaceTargets targets wellFormed =>
      subst hp hturn
      simp [Operation.perform, Step.map, Session.replaceTargets, Turn.request?, Turn.offer?]
  | _ =>
      -- no other operation asks for a language
      have hsame := hkeeps rfl rfl
      subst hturn
      simp [hsame.language, hsame.namespaceHint, Turn.request?, Turn.offer?]

/-- The language is the one that was asked for last, or else the first that a catalog had to
offer. -/
theorem run_language (ops : List Operation) (store : σ) (s : Session) {r : Run σ}
    (hr : run reader storage store s ops = r) :
    r.session.language = ((r.turns.filterMap Turn.request?).getLast?.map Prod.fst).or
        (s.language.or (r.turns.filterMap Turn.offer?).head?) ∧
      r.session.namespaceHint =
        ((r.turns.filterMap Turn.request?).getLast?.map Prod.snd).getD s.namespaceHint := by
  induction ops generalizing store s r with
  | nil =>
      subst hr
      simp [run]
  | cons op ops ih =>
      rcases hp : op.perform reader storage store s with ⟨store', step⟩
      rw [run_cons _ _ _ _ _ _ hp] at hr
      subst hr
      obtain ⟨hlang, hhint⟩ := perform_language reader storage hp rfl
      obtain ⟨hlang', hhint'⟩ := ih store' step.session rfl
      simp only [filterMap_cons_eq, List.getLast?_append, List.head?_append, Option.head?_toList]
      constructor
      · rw [hlang', hlang]
        cases (List.filterMap Turn.request? _).getLast? <;> cases Turn.request? _ <;>
          cases s.language <;> simp
      · rw [hhint', hhint]
        cases (List.filterMap Turn.request? _).getLast? <;> cases Turn.request? _ <;> simp

/-! ### Histories -/

variable {ops : List Operation} {before after : List Turn} {turn : Turn} {o : Outcome}

/-- A run shows its last attempt. -/
theorem run_shows (hops : ∀ op ∈ ops, op.isReplacement = false) {r : Run σ}
    (hr : run reader storage store s ops = r) (hturns : r.turns = before ++ turn :: after)
    (ho : turn.outcome? = some o) (hafter : ∀ t ∈ after, t.outcome? = none) :
    r.session.Shows o (after.filterMap Turn.targetText?) := by
  subst hr
  obtain ⟨ops₁, op, ops₂, r, p, rfl, hr, -, hp, hturn, rfl⟩ := run_split reader storage hturns
  have hshows := perform_shows reader storage hp hturn ho
  -- what comes after the turn is a run of its own, without an attempt
  have hkeeps := run_keeps reader storage (fun op' hop' => hops op' (by simp [hop'])) rfl hafter
  rw [run_append _ _ _ _ _ _ hr, run_cons _ _ _ _ _ _ hp]
  exact hshows.keep hkeeps

/-- Before the first attempt a run shows nothing. -/
theorem run_shows_nothing (hops : ∀ op ∈ ops, op.isReplacement = false) {r : Run σ}
    (hr : run reader storage store .empty ops = r) (ho : ∀ t ∈ r.turns, t.outcome? = none) :
    r.session.targets = .empty ∧ r.session.lastError = none ∧ r.session.language = none ∧
      r.session.namespaceHint = "" := by
  have hkeeps := run_keeps reader storage hops hr ho
  have hshows := Session.shows_empty.keep hkeeps
  exact ⟨hshows.targets_eq_empty rfl, hkeeps.lastError, hkeeps.language, hkeeps.namespaceHint⟩

/-- After any operations but replacements: without an attempt there are no targets, no
error and no language. After a success the targets are its texts, each name where it
came first, with the last content given to the name since, and the error is gone. After
a failure the error is that of the attempt and the targets are gone. -/
theorem run_translations (store : σ) (ops : List Operation)
    (hops : ∀ op ∈ ops, op.isReplacement = false) :
    let r := run reader storage store .empty ops
    ((∀ t ∈ r.turns, t.outcome? = none) →
      r.session.targets = .empty ∧ r.session.lastError = none ∧ r.session.language = none ∧
        r.session.namespaceHint = "") ∧
    (∀ before turn after o, r.turns = before ++ turn :: after → turn.outcome? = some o →
      (∀ t ∈ after, t.outcome? = none) →
      match o with
      | .success texts =>
        r.session.lastError = none ∧
          r.session.targets.names = (texts.map NamedText.name).eraseDups ∧
          ∀ d ∈ r.session.targets.documents,
            NamedText.latest? (texts ++ after.filterMap Turn.targetText?) d.name = some d.content
      | .failure d => r.session.lastError = some d ∧ r.session.targets = .empty) ∧
    r.session.language = ((r.turns.filterMap Turn.request?).getLast?.map Prod.fst).or
      (r.turns.filterMap Turn.offer?).head? ∧
    r.session.namespaceHint = ((r.turns.filterMap Turn.request?).getLast?.map Prod.snd).getD "" := by
  intro r
  refine ⟨fun ho => run_shows_nothing reader storage hops rfl ho, ?_,
    run_language reader storage ops store .empty rfl⟩
  intro before turn after o hturns ho hafter
  have hshows := run_shows reader storage hops rfl hturns ho hafter
  cases o with
  | success texts =>
      exact ⟨hshows.lastError, hshows.names, fun d hd => hshows.follows.latest_of_mem hd⟩
  | failure d => exact ⟨hshows.lastError, hshows.targets_eq_empty rfl⟩

end

attribute [local instance] FurtherCharsets.none in
/-- After a breakdown, a success with a name that comes twice, and an edit. -/
theorem run_translations_twice :
    let crash : Translator := fun _ => ⟨.crashed none, []⟩
    let texts : List NamedText := [⟨"a", "1"⟩, ⟨"b", "2"⟩, ⟨"a", "3"⟩]
    let give : Translator := fun _ => ⟨.targets texts, []⟩
    let ops : List Operation := [.translate crash "go" "", .translateAgain give (.fixed []),
      .commit .targets "b" "4"]
    let r := run Memory.storage.reader Memory.storage (.ofFiles []) .empty ops
    r.session.lastError = none ∧ r.session.targets.names = ["a", "b"] ∧
      ∀ d ∈ r.session.targets.documents,
        NamedText.latest? (texts ++ [⟨"b", "4"⟩]) d.name = some d.content := by
  intro crash texts give ops r
  have hops : ∀ op ∈ ops, op.isReplacement = false := by simp [ops, Operation.isReplacement]
  refine (run_translations Memory.storage.reader Memory.storage (.ofFiles []) ops hops).2.1
    [_] _ [_] (.success texts) rfl rfl fun t ht => ?_
  rw [List.mem_singleton.mp ht]
  rfl

end SourceDesk
