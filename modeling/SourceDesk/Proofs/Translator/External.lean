import SourceDesk.Proofs.Json.Write
import SourceDesk.Proofs.Translator.Payload
import SourceDesk.Session.Attempt
import SourceDesk.Translator.External

/-! What the run of a translator comes to. Whatever a program does, it gives targets if it ends
well and its output tells them, a diagnostic if it ends well and its output tells one, and in all
other cases a complaint without a place. -/
namespace SourceDesk

open Json Response

namespace ProcessRun

/-- A program that ended well and whose output is the text of a value. -/
def Prints (run : ProcessRun) (t : Tree) : Prop :=
  ∃ stdout stderr readsInput, run = .ended (.code 0) stdout stderr readsInput ∧ t.SpelledIn stdout

/-- A program that ended well and whose output is an answer. -/
def Answers (run : ProcessRun) (response : Response) : Prop :=
  ∃ t, run.Prints t ∧ t.depth ≤ maxDepth ∧ Response.Answers t response

/-- A program that ended well and whose output is a good answer with a payload that holds
something. Where no payload stands, it is null. -/
def Yields {α : Type} (run : ProcessRun) (Holds : Tree → α → Prop) (a : α) : Prop :=
  ∃ t payload, run.Prints t ∧ t.depth ≤ maxDepth ∧
    t.HasFields ["status", "payload"] [some (.text "ok"), payload] ∧ Holds (payload.getD .null) a

/-- The runs that come to nothing: the program was not started, or did not end well, or its
output is no answer, or a good answer with a payload that does not hold what it should. -/
inductive Fails {α : Type} (Holds : Tree → α → Prop) : ProcessRun → Prop
  | unstarted {reason} : Fails Holds (.unstarted reason)
  | unsuccessful {status stdout stderr readsInput} : status ≠ .code 0 →
    Fails Holds (.ended status stdout stderr readsInput)
  | unanswered {stdout stderr readsInput} :
    (∀ t response, t.SpelledIn stdout → t.depth ≤ maxDepth → ¬Response.Answers t response) →
    Fails Holds (.ended (.code 0) stdout stderr readsInput)
  | unfit {stdout stderr readsInput} {t : Tree} {payload : Option Tree} :
    t.SpelledIn stdout → t.depth ≤ maxDepth →
    t.HasFields ["status", "payload"] [some (.text "ok"), payload] →
    (∀ a, ¬Holds (payload.getD .null) a) → Fails Holds (.ended (.code 0) stdout stderr readsInput)

/-- There is no run of any other kind. -/
theorem cases {α : Type} (Holds : Tree → α → Prop) (run : ProcessRun) :
    (∃ a, run.Yields Holds a) ∨ (∃ d, run.Answers (.error d)) ∨ run.Fails Holds := by
  cases run with
  | unstarted reason => exact .inr (.inr .unstarted)
  | ended status stdout stderr readsInput =>
      by_cases hstatus : status = .code 0
      · subst hstatus
        by_cases hanswer : ∃ t : Tree, ∃ response,
            t.SpelledIn stdout ∧ t.depth ≤ maxDepth ∧ Response.Answers t response
        · obtain ⟨t, response, ht, hdepth, h⟩ := hanswer
          cases h with
          | @ok payload hfields =>
              by_cases hholds : ∃ a, Holds (payload.getD .null) a
              · obtain ⟨a, ha⟩ := hholds
                exact .inl ⟨a, t, payload, ⟨_, _, _, rfl, ht⟩, hdepth, hfields, ha⟩
              · exact .inr (.inr (.unfit ht hdepth hfields (not_exists.mp hholds)))
          | error hfields hplace =>
              exact .inr (.inl ⟨_, t, ⟨_, _, _, rfl, ht⟩, hdepth, .error hfields hplace⟩)
        · refine .inr (.inr (.unanswered fun t response ht hdepth h => hanswer ?_))
          exact ⟨t, response, ht, hdepth, h⟩
      · exact .inr (.inr (.unsuccessful hstatus))

end ProcessRun

namespace Command

variable {c : Command} {run : ProcessRun} {α : Type} {read : Tree → Except Cause α}
  {Holds : Tree → α → Prop} {a : α}

/-! ### What is understood -/

/-- An answer is understood as what it is. -/
theorem understand_of_answers {response : Response} (h : run.Answers response) :
    c.understand run = match response with
      | .ok payload => .ok payload
      | .error d => .error (.diagnosed d) := by
  obtain ⟨t, ⟨stdout, stderr, readsInput, rfl, ht⟩, hdepth, h⟩ := h
  have hdecode : decode stdout = .ok response := decode_eq_ok_iff.mpr ⟨t, ht, hdepth, h⟩
  have hsuccess : ExitStatus.isSuccess (.code 0) = true := rfl
  simp only [understand, hsuccess, hdecode]
  cases response <;> rfl

theorem unpack_of_yields (hread : ∀ t a, read t.settle = .ok a ↔ Holds t a)
    (h : run.Yields Holds a) : unpack read (c.understand run) = .ok a := by
  obtain ⟨t, payload, hprints, hdepth, hfields, ha⟩ := h
  rw [understand_of_answers ⟨t, hprints, hdepth, .ok hfields⟩]
  simp only [unpack, (hread _ _).mpr ha]

theorem unpack_of_diagnostic {d : Diagnostic} (h : run.Answers (.error d)) :
    unpack read (c.understand run) = .error (.diagnosed d) := by
  rw [understand_of_answers h]
  rfl

/-- A run that comes to nothing is complained about in plain words. -/
theorem unpack_of_fails (hread : ∀ t a, read t.settle = .ok a ↔ Holds t a)
    (h : run.Fails Holds) : ∃ m, unpack read (c.understand run) = .error (.plain m) := by
  cases h with
  | unstarted => exact ⟨_, rfl⟩
  | @unsuccessful status stdout stderr readsInput hstatus =>
      have hfailed : status.isSuccess = false := by
        cases status with
        | code n => simpa [ExitStatus.isSuccess] using hstatus
        | signal n => rfl
      simp [understand, hfailed, unpack]
  | @unanswered stdout stderr readsInput hnone =>
      have hsuccess : ExitStatus.isSuccess (.code 0) = true := rfl
      cases hdecode : decode stdout with
      | error f => simp [understand, hsuccess, hdecode, unpack]
      | ok response =>
          obtain ⟨t, ht, hdepth, h⟩ := decode_eq_ok_iff.mp hdecode
          exact absurd h (hnone t response ht hdepth)
  | @unfit stdout stderr readsInput t payload ht hdepth hfields hnone =>
      rw [understand_of_answers ⟨t, ⟨_, _, _, rfl, ht⟩, hdepth, .ok hfields⟩]
      cases hpayload : read (payload.getD .null).settle with
      | error cause => simp [unpack, hpayload]
      | ok a => exact absurd ((hread _ _).mp hpayload) (hnone a)

section

variable (hread : ∀ t a, read t.settle = .ok a ↔ Holds t a)
include hread

/-- Each kind of run is understood in its own way. -/
theorem unpack_cases (c : Command) (run : ProcessRun) :
    (∃ a, run.Yields Holds a ∧ unpack read (c.understand run) = .ok a) ∨
    (∃ d, run.Answers (.error d) ∧ unpack read (c.understand run) = .error (.diagnosed d)) ∨
    run.Fails Holds ∧ ∃ m, unpack read (c.understand run) = .error (.plain m) := by
  rcases run.cases Holds with ⟨a, ha⟩ | ⟨d, hd⟩ | hfails
  · exact .inl ⟨a, ha, unpack_of_yields hread ha⟩
  · exact .inr (.inl ⟨d, hd, unpack_of_diagnostic hd⟩)
  · exact .inr (.inr ⟨hfails, unpack_of_fails hread hfails⟩)

theorem unpack_eq_ok_iff : unpack read (c.understand run) = .ok a ↔ run.Yields Holds a := by
  refine ⟨fun h => ?_, unpack_of_yields hread⟩
  rcases unpack_cases hread c run with ⟨b, hb, heq⟩ | ⟨d, -, heq⟩ | ⟨-, m, heq⟩
  · exact Except.ok.inj (heq.symm.trans h) ▸ hb
  · cases heq.symm.trans h
  · cases heq.symm.trans h

theorem unpack_eq_diagnosed_iff {d : Diagnostic} :
    unpack read (c.understand run) = .error (.diagnosed d) ↔ run.Answers (.error d) := by
  refine ⟨fun h => ?_, unpack_of_diagnostic⟩
  rcases unpack_cases hread c run with ⟨b, -, heq⟩ | ⟨d', hd, heq⟩ | ⟨-, m, heq⟩
  · cases heq.symm.trans h
  · exact Complaint.diagnosed.inj (Except.error.inj (heq.symm.trans h)) ▸ hd
  · cases heq.symm.trans h

theorem unpack_eq_plain_iff :
    (∃ m, unpack read (c.understand run) = .error (.plain m)) ↔ run.Fails Holds := by
  refine ⟨fun ⟨m, h⟩ => ?_, unpack_of_fails hread⟩
  rcases unpack_cases hread c run with ⟨b, -, heq⟩ | ⟨d, -, heq⟩ | ⟨hfails, -⟩
  · cases heq.symm.trans h
  · cases heq.symm.trans h
  · exact hfails

end

/-! ### What comes of a question -/

variable {launch : Launcher} {commission : Commission}

theorem translate_reply : (c.translate launch commission).reply =
    match unpack targets (c.understand (launch c (Request.translate commission).line)) with
    | .ok texts => .targets texts
    | .error complaint => .refused complaint := by
  simp only [translate, ask]
  cases unpack targets (c.understand (launch c (Request.translate commission).line)) <;> rfl

theorem reply_eq_targets_iff {texts : List NamedText} :
    (c.translate launch commission).reply = .targets texts ↔
      unpack targets (c.understand (launch c (Request.translate commission).line)) = .ok texts := by
  rw [translate_reply]
  cases unpack targets (c.understand (launch c (Request.translate commission).line)) <;> simp

theorem reply_eq_refused_iff {complaint : Complaint} :
    (c.translate launch commission).reply = .refused complaint ↔
      unpack targets (c.understand (launch c (Request.translate commission).line)) =
        .error complaint := by
  rw [translate_reply]
  cases unpack targets (c.understand (launch c (Request.translate commission).line)) <;> simp

/-- The program as a translator. It gives back the texts or the diagnostic that the program
printed, in whatever order the members stood and however they were spelled; a diagnostic comes
from nowhere else, and what comes of a run that fails has no place. -/
theorem translate_classified (c : Command) (launch : Launcher) (commission : Commission) :
    let run := launch c (Request.translate commission).line
    let reply := (c.translate launch commission).reply
    (∀ texts, reply = .targets texts ↔ run.Yields HoldsTargets texts) ∧
    (∀ d, reply = .refused (.diagnosed d) ↔ run.Answers (.error d)) ∧
    ((∃ m, reply = .refused (.plain m)) ↔ run.Fails HoldsTargets) ∧
    (run.Fails HoldsTargets → ∀ s : Session, ∀ language hint,
      s.commission language hint = commission →
      ∃ m, (s.translate (c.translate launch) language hint).outcome = .failure ⟨m, none⟩) ∧
    (∀ t texts, run.Prints t → GivesTargets t texts → reply = .targets texts) ∧
    (∀ t d, run.Prints t → GivesDiagnostic t d → reply = .refused (.diagnosed d)) ∧
    (∀ t names, (launch c Request.languages.line).Prints t → GivesLanguages t names →
      (c.languages launch).languages = .ok names) := by
  intro run reply
  have htargets (t : Tree) (texts : List NamedText) :
      targets t.settle = .ok texts ↔ HoldsTargets t texts := targets_settle_iff
  have hplain : (∃ m, reply = .refused (.plain m)) ↔ run.Fails HoldsTargets := by
    simp only [reply, reply_eq_refused_iff]
    exact unpack_eq_plain_iff htargets
  refine ⟨fun texts => reply_eq_targets_iff.trans (unpack_eq_ok_iff htargets),
    fun d => reply_eq_refused_iff.trans (unpack_eq_diagnosed_iff htargets), hplain,
    fun hfails s language hint hcommission => ?_, fun t texts hprints h => ?_,
    fun t d hprints h => ?_, fun t names hprints h => ?_⟩
  · obtain ⟨m, hm⟩ := hplain.mpr hfails
    refine ⟨m, ?_⟩
    show Outcome.ofReply (c.translate launch (s.commission language hint)).reply = _
    rw [hcommission]
    exact congrArg Outcome.ofReply hm
  · obtain ⟨hdepth, payload, hfields, hholds⟩ := h.holds
    exact reply_eq_targets_iff.mpr
      (unpack_of_yields htargets ⟨t, some payload, hprints, hdepth, hfields, hholds⟩)
  · obtain ⟨hdepth, hanswers⟩ := h.answers
    exact reply_eq_refused_iff.mpr (unpack_of_diagnostic ⟨t, hprints, hdepth, hanswers⟩)
  · obtain ⟨hdepth, payload, hfields, hholds⟩ := h.holds
    exact unpack_of_yields (fun t ls => languages_settle_iff)
      ⟨t, some payload, hprints, hdepth, hfields, hholds⟩

theorem translate_classified_swapped :
    let text : Bytes := Write.object [("name", Write.text "a"), ("content", Write.text "b")]
    let stdout : Bytes := Write.object
      [("payload", Write.object [("targets", Write.list [text, text])]), ("status", Write.text "ok")]
    ∃ t : Tree, t.SpelledIn stdout ∧ GivesTargets t [⟨"a", "b"⟩, ⟨"a", "b"⟩] ∧
      (translate ⟨.ofText "t", []⟩ (fun _ _ => .ended (.code 0) stdout [] true) ⟨[], "", ""⟩).reply =
        .targets [⟨"a", "b"⟩, ⟨"a", "b"⟩] := by
  intro text stdout
  let item : Tree := .object [("name", .text "a"), ("content", .text "b")]
  have hitem : item.SpelledBy text :=
    spelledBy_object (.cons ⟨rfl, spelledText_text "a"⟩ (.cons ⟨rfl, spelledText_text "b"⟩ .nil))
  have hpayload : (Tree.object [("targets", .array [item, item])]).SpelledBy
      (Write.object [("targets", Write.list [text, text])]) :=
    spelledBy_object (.cons ⟨rfl, spelledBy_list (.cons hitem (.cons hitem .nil))⟩ .nil)
  have hspelled : (Tree.object [("payload", .object [("targets", .array [item, item])]),
      ("status", .text "ok")]).SpelledIn stdout :=
    ⟨[], stdout, [], by simp, blank_nil,
      spelledBy_object (.cons ⟨rfl, hpayload⟩ (.cons ⟨rfl, spelledText_text "ok"⟩ .nil)), blank_nil⟩
  have hgives : GivesTargets (.object [("payload", .object [("targets", .array [item, item])]),
      ("status", .text "ok")]) [⟨"a", "b"⟩, ⟨"a", "b"⟩] :=
    ⟨_, _, ⟨_, rfl, .swap _ _ _⟩, ⟨_, rfl, .refl _⟩,
      .cons ⟨_, rfl, .refl _⟩ (.cons ⟨_, rfl, .refl _⟩ .nil)⟩
  exact ⟨_, hspelled, hgives, (translate_classified _ _ _).2.2.2.2.1 _ _
    ⟨stdout, [], true, rfl, hspelled⟩ hgives⟩

/-- A diagnostic with its place in front, as far out as a count can be. -/
example :
    let stdout := Utf8.encode ("\t\x7b \"position\" : \x7b\"offset\":18446744073709551615, " ++
      "\"source\":\"a\\u00e9\"\x7d,\n\"message\":\"m\",\"status\":\"error\"\x7d ")
    (translate ⟨.ofText "t", []⟩ (fun _ _ => .ended (.code 0) stdout [] false) ⟨[], "", ""⟩).reply =
      .refused (.diagnosed ⟨"m", some ⟨"aé", 18446744073709551615⟩⟩) := by
  decide +kernel

end Command

end SourceDesk
