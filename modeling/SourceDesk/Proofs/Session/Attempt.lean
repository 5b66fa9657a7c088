import SourceDesk.Session.History

/-! Attempts to translate. Whichever operation makes an attempt, it is `translate` done
with some language and hint, and the one commission it submits shows in its events. -/
namespace SourceDesk

/-- The translator that an operation brings along. -/
def Operation.translator? : Operation → Option Translator
  | .translate translator _ _ | .translateAgain translator _ => some translator
  | _ => none

/-- What is seen of the catalog when a session does an operation. -/
def Operation.consultation (s : Session) : Operation → List Event
  | .translateAgain _ catalog => if s.language.isNone then catalog.events else []
  | _ => []

/-- The events of an attempt at which one commission was submitted, after some earlier
events. Besides these, only the translator itself may have made submissions. -/
def Submits (events earlier : List Event) (translator : Translator) (c : Commission) : Prop :=
  ∃ before after, events = earlier ++ before ++ .submitted c :: (translator c).events ++ after ∧
    ∀ e ∈ before ++ after, e.submitted? = none

theorem submitted?_installationNotes (before : DocumentSet) (o : Outcome) {e : Event}
    (he : e ∈ Session.installationNotes before o) : e.submitted? = none := by
  cases o with
  | success texts =>
      simp only [Session.installationNotes, List.mem_append, List.mem_cons, List.not_mem_nil,
        or_false] at he
      rcases he with he | rfl | rfl
      · split at he
        · cases he
        · rw [List.mem_singleton.mp he]
          rfl
      · rfl
      · rfl
  | failure d =>
      simp only [Session.installationNotes, List.mem_cons, List.not_mem_nil, or_false] at he
      rcases he with rfl | rfl <;> rfl

theorem Session.translate_submits (s : Session) (translator : Translator)
    (language namespaceHint : String) (earlier : List Event) :
    Submits (earlier ++ (s.translate translator language namespaceHint).events) earlier translator
      (s.commission language namespaceHint) := by
  let c := s.commission language namespaceHint
  refine ⟨[.coordinator .info
      ("translating " ++ toString c.sources.length ++ " source(s) to " ++ language)],
    Session.installationNotes s.targets (.ofReply (translator c).reply), ?_, ?_⟩
  · simp only [Session.translate, List.append_assoc, List.cons_append, List.nil_append, c]
  · intro e he
    rcases List.mem_append.mp he with he | he
    · rw [List.mem_singleton.mp he]
      rfl
    · exact submitted?_installationNotes _ _ he

theorem Step.map_ne_outcome {α : Type} {f : α → Operation.Result} (hf : ∀ a, (f a).outcome? = none)
    (t : Step α) (o : Outcome) : (t.map f).result ≠ .ok (.outcome o) := by
  intro h
  cases hr : t.result with
  | error failure => simp [Step.map, hr, Except.map] at h
  | ok a =>
      simp only [Step.map, hr, Except.map, Except.ok.injEq] at h
      have hnone := hf a
      rw [h] at hnone
      cases hnone

section

variable [FurtherCharsets] {σ : Type} (reader : Reader σ) (storage : Storage σ)

/-- An attempt is a translation of the session. -/
theorem perform_attempt {op : Operation} {o : Outcome} {store : σ} {s : Session}
    (ho : (op.perform reader storage store s).2.result = .ok (.outcome o)) :
    ∃ translator language namespaceHint, op.translator? = some translator ∧
      (op.perform reader storage store s).2.session =
        (s.translate translator language namespaceHint).session ∧
      (op.perform reader storage store s).2.events =
        op.consultation s ++ (s.translate translator language namespaceHint).events ∧
      o = (s.translate translator language namespaceHint).outcome := by
  cases op with
  | translate translator language namespaceHint =>
      cases ho
      exact ⟨translator, language, namespaceHint, rfl, rfl, rfl, rfl⟩
  | translateAgain translator catalog =>
      simp only [Operation.perform, Step.map, Session.translateAgain] at ho ⊢
      cases hlang : s.language with
      | some language =>
          simp only [hlang] at ho ⊢
          cases ho
          exact ⟨translator, language, s.namespaceHint, rfl, rfl,
            by simp [Operation.consultation, hlang], rfl⟩
      | none =>
          simp only [hlang] at ho ⊢
          cases hdef : Catalog.default catalog with
          | error failure =>
              simp only [hdef] at ho
              cases ho
          | ok language =>
              simp only [hdef] at ho ⊢
              cases ho
              exact ⟨translator, language, s.namespaceHint, rfl, rfl,
                by simp [Operation.consultation, hlang], rfl⟩
  | load paths => exact absurd ho (Step.map_ne_outcome (fun _ => rfl) _ o)
  | commit which name content => exact absurd ho (Step.map_ne_outcome (fun _ => rfl) _ o)
  | replaceTargets targets wellFormed => exact absurd ho (Step.map_ne_outcome (fun _ => rfl) _ o)
  | save which => exact absurd ho (Step.map_ne_outcome (fun _ => rfl) _ o)
  | saveTargetAs name p => exact absurd ho (Step.map_ne_outcome (fun _ => rfl) _ o)
  | exportTargets dir => exact absurd ho (Step.map_ne_outcome (fun _ => rfl) _ o)
  | resolve position =>
      simp only [Operation.perform] at ho
      cases hr : s.resolve position <;> simp [hr, Except.map] at ho
  | locate =>
      simp only [Operation.perform] at ho
      cases hl : s.locate? with
      | none => simp [hl] at ho
      | some place => cases place <;> simp [hl, Except.map] at ho

end

end SourceDesk
