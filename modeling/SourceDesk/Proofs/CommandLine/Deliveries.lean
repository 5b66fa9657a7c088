import SourceDesk.CommandLine.Work
import SourceDesk.Proofs.Session.Export
import SourceDesk.Proofs.Session.Translation
import SourceDesk.Proofs.Text.Charset

/-! What a job writes. A translation is delivered name by name, in the order in which the
names came first, and each with what it was given last; whatever refuses one of the writes
ends them. -/
namespace SourceDesk

variable {σ : Type} {storage : Storage σ} {store : σ}

/-- What a translation comes to below a directory, in the order in which it is written. -/
def deliveries (dir : Path) (texts : List NamedText) : List (Path × Bytes) :=
  (texts.map NamedText.name).eraseDups.filterMap fun name =>
    (NamedText.latest? texts name).map fun content => (dir.join (.ofText name), Utf8.encode content)

/-- The calls of a delivery: the writes in order, up to one that is refused; without an
error, all of them; and none if a name leads out of the directory. -/
structure Delivered (dir : Path) (texts : List NamedText) (calls : List WriteCall)
    (error : Option CommandLine.FinalError) : Prop where
  in_order : calls.map (fun call => (call.path, call.data)) <+: deliveries dir texts
  accepted : ∀ call ∈ calls.dropLast, call.refusal = none
  complete : error = none ↔ calls = (deliveries dir texts).map .done
  inside : (∃ t ∈ texts, Session.LeadsOut t.name) → calls = []

theorem exportWrite?_installed [FurtherCharsets] {s : Session} {texts : List NamedText}
    {dir : Path} {d : Document}
    (hd : d ∈ (s.install (.success texts)).targets.documents) :
    Session.exportWrite? dir d = some (Session.exportPath dir d, Utf8.encode d.content) := by
  obtain ⟨t, rfl⟩ := Session.generated_of_mem_install hd
  rw [Session.exportWrite?, Document.generated, encodeText?_utf8]
  rfl

theorem deliveries_eq (s : Session) (texts : List NamedText) (dir : Path) :
    deliveries dir texts = (s.install (.success texts)).targets.documents.map fun d =>
      (Session.exportPath dir d, Utf8.encode d.content) := by
  have hshows := Session.install_shows s (.success texts)
  have hnames : (texts.map NamedText.name).eraseDups =
      (s.install (.success texts)).targets.documents.map Document.name := hshows.names.symm
  rw [deliveries, hnames, List.filterMap_map, ← List.filterMap_eq_map]
  refine List.filterMap_congr fun d hd => ?_
  have hlatest := hshows.follows.latest_of_mem hd
  rw [Outcome.texts, List.append_nil] at hlatest
  simp [hlatest, Session.exportPath]

theorem calls_done (ws : List (Path × Bytes)) :
    (ws.map WriteCall.done).map (fun call => (call.path, call.data)) = ws := by
  rw [List.map_map]
  exact List.map_id ws

theorem refusal_done {ws : List (Path × Bytes)} {call : WriteCall} (h : call ∈ ws.map .done) :
    call.refusal = none := by
  obtain ⟨w, -, rfl⟩ := List.mem_map.mp h
  rfl

/-- Where a delivery that is not complete ended. -/
theorem Delivered.partly {dir : Path} {texts : List NamedText} {calls : List WriteCall}
    {failure : CommandLine.FinalError} {done rest : List (Path × Bytes)} {w : Path × Bytes}
    (hwanted : deliveries dir texts = done ++ w :: rest)
    (hcalls : calls = [] ∨ (∀ t ∈ texts, ¬Session.LeadsOut t.name) ∧
      ∃ reason, calls = done.map .done ++ [⟨w.1, w.2, some reason⟩]) :
    Delivered dir texts calls (some failure) := by
  rcases hcalls with rfl | ⟨hin, reason, rfl⟩
  · exact ⟨List.nil_prefix, by simp, by simp [hwanted], fun _ => rfl⟩
  · refine ⟨⟨rest, ?_⟩, ?_, ?_, fun ⟨t, ht, hout⟩ => absurd hout (hin t ht)⟩
    · rw [List.map_append, calls_done, hwanted, List.append_assoc]
      rfl
    · intro call hcall
      rw [List.dropLast_concat] at hcall
      exact refusal_done hcall
    · simp only [reduceCtorEq, false_iff]
      intro hall
      have hmem : (⟨w.1, w.2, some reason⟩ : WriteCall) ∈ (deliveries dir texts).map .done := by
        simp [← hall]
      cases refusal_done hmem

namespace CommandLine

/-- A report without the record of the writes. -/
def Report.forget (r : Report (Recorded σ)) : Report σ := ⟨r.store.store, r.remarks, r.error⟩

variable [FurtherCharsets] (v : Verbosity)

/-- Targets that are all texts are written as they are, unless they are refused. -/
theorem deliver_delivered (s : Session) (texts : List NamedText) (dir : Path) :
    let r := deliver v storage.recorded ⟨store, []⟩ (s.install (.success texts)) (some dir)
    Delivered dir texts r.store.calls r.error := by
  generalize hs : s.install (.success texts) = installed
  have hwanted := deliveries_eq s texts dir
  have hwrites : ∀ d ∈ installed.targets.documents, Session.exportWrite? dir d =
      some (Session.exportPath dir d, Utf8.encode d.content) := fun d hd =>
    exportWrite?_installed (hs ▸ hd)
  rw [hs] at hwanted
  rcases hexport : installed.exportTargets storage.recorded ⟨store, []⟩ dir with ⟨last, step⟩
  simp only [deliver, hexport]
  rcases Session.exportTargets_cases storage.recorded dir installed ⟨store, []⟩ hexport with
    ⟨before, bad, after, hdocs, -, -, hstore, -, hresult⟩ |
    ⟨hin, saving, before, after, ws, mid, hexported, hstore, -, hresult⟩
  · simp only at hstore hresult
    rw [hdocs, List.map_append, List.map_cons] at hwanted
    simp only [hresult, hstore]
    exact .partly hwanted (.inl rfl)
  · simp only at hstore hresult
    have hdocs := hexported.docs_eq
    have hin : ∀ t ∈ texts, ¬Session.LeadsOut t.name := by
      intro t ht
      have hname : t.name ∈ installed.targets.names := by
        rw [← hs, (Session.install_shows s (.success texts)).names, List.mem_eraseDups]
        exact List.mem_map_of_mem ht
      obtain ⟨d, hd, hsame⟩ := List.mem_map.mp hname
      exact hsame ▸ hin d hd
    have hws : ws = before.map fun d => (Session.exportPath dir d, Utf8.encode d.content) := by
      refine List.map_injective_iff.mpr (fun _ _ => Option.some.inj) ?_
      rw [← hexported.writes_eq, List.map_map]
      exact List.map_congr_left fun d hd => hwrites d (by simp [hdocs, hd])
    rw [hdocs, List.map_append, ← hws] at hwanted
    rcases hexported.calls_cases with ⟨hcalls, hafter, hfailure⟩ | ⟨d, rest, hafter, henc, -, -⟩ |
      ⟨d, rest, data, reason, hafter, henc, hcalls, hfailure⟩
    · simp only [hresult, hfailure, hstore, hcalls]
      rw [hafter, List.map_nil, List.append_nil] at hwanted
      refine ⟨⟨[], ?_⟩, fun call hcall => refusal_done (List.dropLast_subset _ hcall), ?_,
        fun ⟨t, ht, hout⟩ => absurd hout (hin t ht)⟩
      · rw [List.append_nil, calls_done, hwanted]
      · simp [hwanted]
    · -- every text has bytes in UTF-8
      have hwrite := hwrites d (by simp [hdocs, hafter])
      simp [Session.exportWrite?, henc] at hwrite
    · have hwrite := hwrites d (by simp [hdocs, hafter])
      simp only [Session.exportWrite?, henc, Option.map_some, Option.some.injEq, Prod.mk.injEq,
        true_and] at hwrite
      rw [hafter, List.map_cons, ← hwrite] at hwanted
      simp only [hresult, hfailure, hstore]
      exact .partly hwanted (.inr ⟨hin, reason, hcalls⟩)

/-! ### Records -/

variable (r : Recorded σ)

end CommandLine

end SourceDesk
