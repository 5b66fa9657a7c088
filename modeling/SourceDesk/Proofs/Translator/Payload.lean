import SourceDesk.Proofs.Translator.Response

/-! What the payload of an answer holds, and the answers whose members stand in any order. -/
namespace SourceDesk.Response

open Json

variable {t : Tree}

/-! ### Payloads -/

/-- The fields of a text in a payload. -/
def IsText (t : Tree) (x : NamedText) : Prop :=
  t.SettlesFields ["name", "content"] [some (.text x.name), some (.text x.content)]

/-- The payloads that hold texts: a field for a list with the texts in order. -/
def HoldsTargets (payload : Tree) (texts : List NamedText) : Prop :=
  ∃ items, payload.SettlesFields ["targets"] [some (.array items)] ∧ List.Forall₂ IsText items texts

/-- The payloads that hold languages. -/
def HoldsLanguages (payload : Tree) (languages : List String) : Prop :=
  payload.SettlesFields ["languages"] [some (.array (languages.map .text))]

theorem text_ofTree_settle_iff {e : Excess} {x : NamedText} :
    NamedText.decoder.ofTree e t.settle = .ok x ↔ IsText t x := by
  rw [NamedText.decoder, Fields.decoder_ofTree_iff]
  simp only [Fields.ofTree_eq_ok_iff (f := NamedText.fields) (by decide), hasFields_settle_iff]
  constructor
  · rintro ⟨⟨name, content, u⟩, ⟨_, ⟨vs, hfields, rfl⟩, hreads⟩, rfl⟩
    simp only [NamedText.fields, Fields.reads_required, Fields.reads_done,
      Decoder.text_ofTree_iff] at hreads
    obtain ⟨_, _, hvs, rfl, _, _, rfl, rfl, rfl⟩ := hreads
    obtain ⟨u, us, rfl, hname, hus⟩ := map_settle_eq_cons_iff.mp hvs
    obtain ⟨w, ws, rfl, hcontent, hws⟩ := map_settle_eq_cons_iff.mp hus
    obtain rfl := List.map_eq_nil_iff.mp hws
    rw [Tree.settle_eq_text_iff.mp hname, Tree.settle_eq_text_iff.mp hcontent] at hfields
    exact hfields
  · intro h
    refine ⟨(x.name, x.content, ()), ⟨_, ⟨_, h, rfl⟩, ?_⟩, rfl⟩
    simp [NamedText.fields, Decoder.text_ofTree_iff, Tree.settle]

/-- A payload whose only field is a list, read settled. -/
theorem list_settle_iff {α : Type} {e : Excess} {name key : String} {d : Decoder α} {as : List α} :
    ((Fields.field key d.list none .done).ofTree name e t.settle).map (fun (as, ()) => as) = .ok as ↔
      ∃ items, t.SettlesFields [key] [some (.array items)] ∧
        List.Forall₂ (fun t a => d.ofTree e t.settle = .ok a) items as := by
  have hkeys : (Fields.field key d.list none .done).keys.Nodup := by simp [Fields.keys]
  simp only [map_eq_ok_iff, Fields.ofTree_eq_ok_iff hkeys, hasFields_settle_iff]
  constructor
  · rintro ⟨⟨as, u⟩, ⟨_, ⟨vs, hfields, rfl⟩, hreads⟩, rfl⟩
    rw [Fields.reads_required] at hreads
    obtain ⟨list, _, hvs, hread, rfl⟩ := hreads
    obtain ⟨items, rfl, hitems⟩ := Decoder.list_ofTree_iff.mp hread
    obtain ⟨u, us, rfl, hu, hus⟩ := map_settle_eq_cons_iff.mp hvs
    obtain rfl := List.map_eq_nil_iff.mp hus
    obtain ⟨items, rfl, rfl⟩ := Tree.settle_eq_array_iff.mp hu
    exact ⟨items, hfields, List.forall₂_map_left_iff.mp hitems⟩
  · rintro ⟨items, hfields, hitems⟩
    refine ⟨(as, ()), ⟨_, ⟨_, hfields, rfl⟩, ?_⟩, rfl⟩
    rw [Fields.reads_required]
    refine ⟨_, [], rfl, Decoder.list_ofTree_iff.mpr ⟨items.map Tree.settle, ?_, ?_⟩, rfl⟩
    · simp [Tree.settle, Tree.settleItems_eq]
    · exact List.forall₂_map_left_iff.mpr hitems

theorem targets_settle_iff {texts : List NamedText} :
    targets t.settle = .ok texts ↔ HoldsTargets t texts := by
  rw [targets, targetFields, list_settle_iff]
  simp only [text_ofTree_settle_iff]
  rfl

theorem languages_settle_iff {ls : List String} :
    languages t.settle = .ok ls ↔ HoldsLanguages t ls := by
  rw [languages, languageFields, list_settle_iff]
  simp only [Decoder.text_ofTree_iff, Tree.settle_eq_text_iff]
  rw [HoldsLanguages]
  constructor
  · rintro ⟨items, hfields, hitems⟩
    rw [← List.forall₂_map_right_iff (f := Tree.text), List.forall₂_eq_eq_eq] at hitems
    rwa [← hitems]
  · intro h
    refine ⟨_, h, ?_⟩
    rw [← List.forall₂_map_right_iff (f := Tree.text), List.forall₂_eq_eq_eq]

/-! ### Answers whose members stand in any order -/

/-- The answers that give texts. -/
def GivesTargets (t : Tree) (texts : List NamedText) : Prop :=
  ∃ payload items, t.IsObject [("status", .text "ok"), ("payload", payload)] ∧
    payload.IsObject [("targets", .array items)] ∧
    List.Forall₂ (fun item (x : NamedText) =>
      item.IsObject [("name", .text x.name), ("content", .text x.content)]) items texts

/-- The answers that give languages. -/
def GivesLanguages (t : Tree) (languages : List String) : Prop :=
  ∃ payload, t.IsObject [("status", .text "ok"), ("payload", payload)] ∧
    payload.IsObject [("languages", .array (languages.map .text))]

/-- The answers that give a diagnostic. Where it has no place there may be null for one. -/
def GivesDiagnostic (t : Tree) (d : Diagnostic) : Prop :=
  ∃ place : Option Tree,
    t.IsObject (("status", .text "error") :: ("message", .text d.message) ::
      (place.map fun v => ("position", v)).toList) ∧
    match d.position with
    | none => place = none ∨ place = some .null
    | some p => ∃ v, place = some v ∧
        v.IsObject [("source", .text p.source), ("offset", .number (.nat p.offset.toNat))]

theorem ok_hasFields {payload : Tree} (h : t.IsObject [("status", .text "ok"), ("payload", payload)]) :
    t.HasFields ["status", "payload"] [some (.text "ok"), some payload] :=
  h.hasFields (.cons (by simp [values]) (.cons (by simp [values]) .nil))

theorem field_settles {key : String} {v : Tree} (h : t.IsObject [(key, v)]) :
    t.SettlesFields [key] [some v] :=
  (h.hasFields (.cons (by simp [values]) .nil)).settles

theorem depth_texts {items : List Tree} {texts : List NamedText}
    (h : List.Forall₂ (fun item (x : NamedText) =>
      item.IsObject [("name", .text x.name), ("content", .text x.content)]) items texts) :
    depthOfItems items ≤ 1 := by
  induction h with
  | nil => exact Nat.zero_le 1
  | cons hitem _ ih => exact Nat.max_le.mpr ⟨hitem.depth_le (by simp [Tree.depth]), ih⟩

theorem depth_le_of_payload {payload : Tree} {n : Nat} (hpayload : payload.depth ≤ n)
    (hn : n < maxDepth) (h : t.IsObject [("status", .text "ok"), ("payload", payload)]) :
    t.depth ≤ maxDepth := by
  refine Nat.le_trans (h.depth_le (n := n) ?_) hn
  simpa [Tree.depth] using hpayload

theorem GivesTargets.holds {texts : List NamedText} (h : GivesTargets t texts) :
    t.depth ≤ maxDepth ∧ ∃ payload,
      t.HasFields ["status", "payload"] [some (.text "ok"), some payload] ∧
        HoldsTargets payload texts := by
  obtain ⟨payload, items, ht, hpayload, hitems⟩ := h
  have hdepth : payload.depth ≤ 3 := by
    refine hpayload.depth_le ?_
    simpa [Tree.depth] using depth_texts hitems
  refine ⟨depth_le_of_payload hdepth (by decide) ht, payload, ok_hasFields ht, items,
    field_settles hpayload, hitems.imp fun item x hitem => ?_⟩
  exact (hitem.hasFields (.cons (by simp [values]) (.cons (by simp [values]) .nil))).settles

theorem GivesLanguages.holds {languages : List String} (h : GivesLanguages t languages) :
    t.depth ≤ maxDepth ∧ ∃ payload,
      t.HasFields ["status", "payload"] [some (.text "ok"), some payload] ∧
        HoldsLanguages payload languages := by
  obtain ⟨payload, ht, hpayload⟩ := h
  have hitems : depthOfItems (languages.map .text) ≤ 0 := depthOfItems_le fun t ht => by
    obtain ⟨name, -, rfl⟩ := List.mem_map.mp ht
    exact Nat.le_refl 0
  have hdepth : payload.depth ≤ 2 := by
    refine hpayload.depth_le ?_
    simpa [Tree.depth] using hitems
  exact ⟨depth_le_of_payload hdepth (by decide) ht, payload, ok_hasFields ht,
    field_settles hpayload⟩

theorem GivesDiagnostic.answers {d : Diagnostic} (h : GivesDiagnostic t d) :
    t.depth ≤ maxDepth ∧ Answers t (.error d) := by
  obtain ⟨message, position⟩ := d
  obtain ⟨place, ht, hplace⟩ := h
  have hfields : t.HasFields ["status", "message", "position"]
      [some (.text "error"), some (.text message), place] := by
    refine ht.hasFields (.cons (by cases place <;> simp [values])
      (.cons (by cases place <;> simp [values]) (.cons (by cases place <;> simp [values]) .nil)))
  have hdepth (hplace : ∀ v, place = some v → v.depth ≤ 1) : t.depth ≤ maxDepth := by
    refine Nat.le_trans (ht.depth_le (n := 1) ?_) (by decide)
    cases place with
    | none => simp [Tree.depth]
    | some v => simpa [Tree.depth] using hplace v rfl
  cases position with
  | none =>
      refine ⟨hdepth fun v hv => ?_, .error hfields hplace⟩
      rcases hplace with rfl | rfl
      · cases hv
      · obtain rfl := Option.some.inj hv
        exact Nat.zero_le 1
  | some p =>
      obtain ⟨v, rfl, hv⟩ := hplace
      have hposition : v.HasFields ["source", "offset"]
          [some (.text p.source), some (.number (.nat p.offset.toNat))] :=
        hv.hasFields (.cons (by simp [values]) (.cons (by simp [values]) .nil))
      refine ⟨hdepth fun w hw => ?_, .error hfields ⟨v, _, rfl, hposition, UInt64.ofNat_toNat⟩⟩
      obtain rfl := Option.some.inj hw
      exact hv.depth_le (by simp [Tree.depth])

end SourceDesk.Response
