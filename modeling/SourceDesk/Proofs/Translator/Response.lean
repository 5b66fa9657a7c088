import SourceDesk.Proofs.Json.Record
import SourceDesk.Translator.Response

/-! What translators answer, and how it is spelled. A text is an answer exactly if it spells a
value that has the fields of the answer, wherever the status stands among them. -/
namespace SourceDesk.Response

open Json

/-- The name of a kind of answer. -/
def Status.name : Status → String
  | .ok => "ok"
  | .error => "error"

/-- A status that is taken out of the members of an object. It stands once among them. -/
inductive Untagged :
    Option Status → List (String × Tree) → Option Status → List (String × Tree) → Prop
  | nil {status} : Untagged status [] status []
  | status {status ms status' rest} : Untagged (some status) ms status' rest →
    Untagged none ((statusKey, .text status.name) :: ms) status' rest
  | other {status k t ms status' rest} : k ≠ statusKey → Untagged status ms status' rest →
    Untagged status ((k, t) :: ms) status' ((k, t) :: rest)

/-- A value with a status, and what it holds besides. -/
inductive Tagged : Tree → Status → Tree → Prop
  | members {ms status rest} : Untagged none ms (some status) rest →
    Tagged (.object ms) status (.object rest)
  | inOrder {status ts} : Tagged (.array (.text status.name :: ts)) status (.array ts)

variable {s r w x : Bytes} {status : Status} {t full : Tree}

/-! ### Statuses -/

theorem ofName?_eq_some_iff {name : String} : Status.ofName? name = some status ↔ name = status.name := by
  unfold Status.ofName?
  split
  · rename_i h
    cases status <;> simp [h, Status.name]
  split
  · rename_i h
    cases status <;> simp [h, Status.name]
  · rename_i hok herror
    cases status <;> simp [Status.name, hok, herror]

theorem readStatus_eq_ok_iff :
    readStatus s = .ok (status, r) ↔
      ∃ a v, s = a ++ v ++ r ∧ Blank a ∧ SpelledText status.name v := by
  constructor
  · intro h
    unfold readStatus at h
    split at h
    · cases h
    rename_i name r' hread
    split at h
    · rename_i st hst
      obtain ⟨rfl, rfl⟩ := Prod.mk.inj (Except.ok.inj h)
      unfold readText at hread
      split at hread
      · cases hread
      rename_i b t hs
      obtain ⟨a, rfl, ha, -⟩ := skipBlanks_eq_cons_iff.mp hs
      split at hread
      · rename_i hb
        obtain ⟨v, hv, hname⟩ := spelledText_iff.mpr ⟨t, rfl, hread⟩
        rw [ofName?_eq_some_iff.mp hst] at hname
        exact ⟨a, v, by rw [hb, hv, List.append_assoc], ha, hname⟩
      · cases hread
    · cases h
  · rintro ⟨a, v, rfl, ha, hv⟩
    obtain ⟨t, ht, hread⟩ := spelledText_iff.mp ⟨v, rfl, hv⟩
    have hblank : isBlank quote = false := rfl
    have hname : Status.ofName? status.name = some status := ofName?_eq_some_iff.mpr rfl
    rw [List.append_assoc, ht]
    simp [readStatus, readText, skipBlanks_append ha, hblank, hread, hname]

/-! ### Members -/

theorem readMembers_sound {status status' : Option Status} {first : Bool} {rest : List (String × Tree)}
    {fuel : Nat} (h : readMembers fuel first status s = .ok ((status', rest), r)) :
    ∃ ms w r', s = w ++ r ∧ r = closeBrace :: r' ∧ SpelledMembers first ms w ∧
      depthOfMembers ms ≤ maxDepth - 1 ∧ Untagged status ms status' rest := by
  induction fuel generalizing s first status rest with
  | zero => cases h
  | succ fuel ih =>
      simp only [readMembers] at h
      split at h
      · cases h
      · rename_i hstart
        obtain ⟨heq, rfl⟩ := Prod.mk.inj (Except.ok.inj h)
        obtain ⟨rfl, rfl⟩ := Prod.mk.inj heq
        obtain ⟨a, r', rfl, ha⟩ := readKey_eq_none_iff.mp hstart
        have hskip : skipBlanks (a ++ closeBrace :: r') = closeBrace :: r' := by
          rw [skipBlanks_append ha, skipBlanks_cons (by decide)]
        exact ⟨[], a, r', by rw [hskip], hskip, ha, Nat.zero_le _, .nil⟩
      rename_i key s' hstart
      obtain ⟨gap, keyText, rfl, hgap, hk⟩ := readKey_eq_some_iff.mp hstart
      split at h
      · rename_i hkey
        -- a second status is refused, so that the status was not known before
        split at h
        · cases h
        split at h
        · cases h
        rename_i s'' hcolon
        obtain ⟨c, rfl, hc⟩ := readColon_eq_ok_iff.mp hcolon
        split at h
        · cases h
        rename_i st s'' hst
        obtain ⟨a, v, rfl, ha, hv⟩ := readStatus_eq_ok_iff.mp hst
        obtain ⟨ms, w, r', rfl, rfl, hms, hdepth, huntagged⟩ := ih h
        rw [hkey] at hk
        exact ⟨(statusKey, .text st.name) :: ms, gap ++ keyText ++ (c ++ colon :: a) ++ v ++ w, r',
          by simp, rfl,
          ⟨gap, keyText, c ++ colon :: a, v, w, rfl, hgap, hk, ⟨c, a, rfl, hc, ha⟩, hv, hms⟩,
          Nat.max_le.mpr ⟨Nat.zero_le _, hdepth⟩, .status huntagged⟩
      · rename_i hkey
        split at h
        · cases h
        rename_i s'' hcolon
        obtain ⟨c, rfl, hc⟩ := readColon_eq_ok_iff.mp hcolon
        split at h
        · cases h
        rename_i t s'' ht
        obtain ⟨⟨⟨st, rest'⟩, r'⟩, hread, heq⟩ := map_eq_ok_iff.mp h
        obtain ⟨hpair, rfl⟩ := Prod.mk.inj heq
        obtain ⟨rfl, rfl⟩ := Prod.mk.inj hpair
        obtain ⟨a, v, rfl, ha, hv, hdepth⟩ := readTree_sound ht
        obtain ⟨ms, w, r', rfl, rfl, hms, hdepths, huntagged⟩ := ih hread
        exact ⟨(key, t) :: ms, gap ++ keyText ++ (c ++ colon :: a) ++ v ++ w, r', by simp, rfl,
          ⟨gap, keyText, c ++ colon :: a, v, w, rfl, hgap, hk, ⟨c, a, rfl, hc, ha⟩, hv, hms⟩,
          Nat.max_le.mpr ⟨hdepth, hdepths⟩, .other hkey huntagged⟩

theorem readMembers_complete {status status' : Option Status} {ms rest : List (String × Tree)}
    (huntagged : Untagged status ms status' rest) (x : Bytes) {first : Bool} {fuel : Nat}
    (hms : SpelledMembers first ms w) (hfuel : w.length < fuel)
    (hdepth : depthOfMembers ms ≤ maxDepth - 1) :
    readMembers fuel first status (w ++ closeBrace :: x) =
      .ok ((status', rest), closeBrace :: x) := by
  induction huntagged generalizing first w fuel with
  | nil =>
      obtain ⟨fuel, rfl⟩ := Nat.exists_eq_succ_of_ne_zero (Nat.ne_zero_of_lt hfuel)
      have hstart : readKey first (w ++ closeBrace :: x) = .ok none :=
        readKey_eq_none_iff.mpr ⟨w, x, rfl, hms⟩
      have hblank : isBlank closeBrace = false := rfl
      simp [readMembers, hstart, skipBlanks_append hms, hblank]
  | @status st ms status' rest huntagged ih =>
      obtain ⟨fuel, rfl⟩ := Nat.exists_eq_succ_of_ne_zero (Nat.ne_zero_of_lt hfuel)
      obtain ⟨gap, key, _, v, w, rfl, hgap, hk, ⟨c, a, rfl, hc, ha⟩, hv, hms⟩ := hms
      have hstart := readKey_gap hgap hk (c ++ colon :: (a ++ (v ++ (w ++ closeBrace :: x))))
      have hcolon := readColon_gap hc (a ++ (v ++ (w ++ closeBrace :: x)))
      have hread : readStatus (a ++ (v ++ (w ++ closeBrace :: x))) =
          .ok (st, w ++ closeBrace :: x) :=
        readStatus_eq_ok_iff.mpr ⟨a, v, (List.append_assoc ..).symm, ha, hv⟩
      have hmore := ih hms (show w.length < fuel by simp at hfuel; omega) (Nat.max_le.mp hdepth).2
      simp [readMembers, hstart, hcolon, hread, hmore]
  | @other status k t ms status' rest hne huntagged ih =>
      obtain ⟨fuel, rfl⟩ := Nat.exists_eq_succ_of_ne_zero (Nat.ne_zero_of_lt hfuel)
      obtain ⟨gap, key, _, v, w, rfl, hgap, hk, ⟨c, a, rfl, hc, ha⟩, hv, hms⟩ := hms
      have hstart := readKey_gap hgap hk (c ++ colon :: (a ++ (v ++ (w ++ closeBrace :: x))))
      have hcolon := readColon_gap hc (a ++ (v ++ (w ++ closeBrace :: x)))
      have hfit : 2 * v.length ≤ treeFuel (a ++ (v ++ (w ++ closeBrace :: x))) := by
        simp [treeFuel]
        omega
      have hread := readTree_complete ha hv (hms.delimited x) hfit (Nat.max_le.mp hdepth).1
      have hmore := ih hms (show w.length < fuel by simp at hfuel; omega) (Nat.max_le.mp hdepth).2
      rw [List.append_assoc] at hread
      simp [readMembers, hne, hstart, hcolon, hread, hmore, Except.map]

/-! ### Values with a status -/

/-- A value with a status is read exactly from the texts that spell it. -/
theorem exists_readTagged_iff :
    (∃ r, readTagged s = .ok ((status, t), r) ∧ Blank r) ↔
      ∃ full, full.SpelledIn s ∧ full.depth ≤ maxDepth ∧ Tagged full status t := by
  constructor
  · rintro ⟨r, h, hr⟩
    unfold readTagged at h
    split at h
    · cases h
    rename_i b s' hs
    obtain ⟨a, rfl, ha, -⟩ := skipBlanks_eq_cons_iff.mp hs
    split at h
    · rename_i hb
      split at h
      · cases h
      · cases h
      · rename_i st rest r' hread
        obtain ⟨heq, hrest⟩ := Prod.mk.inj (Except.ok.inj h)
        obtain ⟨rfl, rfl⟩ := Prod.mk.inj heq
        obtain ⟨ms, w, r'', rfl, rfl, hms, hdepth, huntagged⟩ := readMembers_sound hread
        rw [leaveObject_closeBrace] at hrest
        subst hrest
        refine ⟨.object ms, ⟨a, openBrace :: w ++ [closeBrace], r'', by simp [hb], ha, ⟨w, rfl, hms⟩,
          hr⟩, ?_, .members huntagged⟩
        exact Nat.succ_le_succ hdepth
    split at h
    · rename_i hb
      split at h
      · cases h
      · cases h
      rename_i s'' hstart
      obtain ⟨gap, -, -, rfl, hgap, -⟩ := readElementStart_eq_some_iff.mp hstart
      split at h
      · cases h
      rename_i st rest hst
      obtain ⟨c, v, rfl, hc, hv⟩ := readStatus_eq_ok_iff.mp hst
      obtain ⟨⟨ts, r'⟩, hread, heq⟩ := map_eq_ok_iff.mp h
      obtain ⟨heq, hrest⟩ := Prod.mk.inj heq
      obtain ⟨rfl, rfl⟩ := Prod.mk.inj heq
      obtain ⟨w, r'', rfl, rfl, hts, hdepth⟩ := readItems_sound hread
      rw [leaveList_closeBracket] at hrest
      subst hrest
      refine ⟨.array (.text st.name :: ts), ⟨a, openBracket :: (gap ++ c ++ v ++ w) ++ [closeBracket],
        r'', by simp [hb], ha, ⟨_, rfl, gap ++ c, v, w, rfl, hgap.append hc, hv, hts⟩, hr⟩, ?_,
        .inOrder⟩
      exact Nat.succ_le_succ (Nat.max_le.mpr ⟨Nat.zero_le _, hdepth⟩)
    · cases h
  · rintro ⟨full, ⟨a, v, r, rfl, ha, hfull, hr⟩, hdepth, htagged⟩
    refine ⟨r, ?_, hr⟩
    cases htagged with
    | @members ms status rest huntagged =>
        obtain ⟨w, rfl, hms⟩ := hfull
        have hfit : w.length < w.length + (r.length + 1) + 1 := by omega
        have hread := readMembers_complete huntagged r hms hfit (Nat.le_of_succ_le_succ hdepth)
        have hblank : isBlank openBrace = false := rfl
        simp [readTagged, skipBlanks_append ha, hblank, hread]
    | @inOrder status ts =>
        obtain ⟨w, rfl, gap, v, rest, rfl, hgap, hv, hts⟩ := hfull
        replace hdepth : depthOfItems ts ≤ maxDepth - 1 :=
          (Nat.max_le.mp (Nat.le_of_succ_le_succ hdepth)).2
        have hfirst := readElementStart_gap hgap hv (rest ++ closeBracket :: r)
        have hstatus : readStatus (v ++ (rest ++ closeBracket :: r)) =
            .ok (status, rest ++ closeBracket :: r) :=
          readStatus_eq_ok_iff.mpr ⟨[], v, rfl, blank_nil, hv⟩
        have hfit : 2 * rest.length < treeFuel (rest ++ closeBracket :: r) := by
          simp [treeFuel]
          omega
        have hread := readItems_complete r hts hfit hdepth
        have hblank : isBlank openBracket = false := rfl
        have hkind : openBracket ≠ openBrace := by decide
        simp [readTagged, skipBlanks_append ha, hblank, hkind, hfirst, hstatus, hread, Except.map]

section

variable {keys : List String} {key : String} {vs : List (Option Tree)}
  {status₀ status₁ : Option Status} {ms rest : List (String × Tree)}

theorem Untagged.values_eq (h : Untagged status₀ ms status₁ rest) (hkey : key ≠ statusKey) :
    values rest key = values ms key := by
  induction h with
  | nil => rfl
  | status _ ih => rw [ih, values_cons_other (Ne.symm hkey)]
  | @other _ k _ _ _ _ _ _ ih =>
      by_cases hk : k = key
      · subst hk
        rw [values_cons_same, values_cons_same, ih]
      · rw [values_cons_other hk, values_cons_other hk, ih]

theorem Untagged.values_status (h : Untagged status₀ ms status₁ rest) :
    values ms statusKey = [] ∧ status₁ = status₀ ∨
      status₀ = none ∧ ∃ st, status₁ = some st ∧ values ms statusKey = [.text st.name] := by
  induction h with
  | nil => exact .inl ⟨rfl, rfl⟩
  | @status st _ _ _ _ ih =>
      rcases ih with ⟨hvalues, rfl⟩ | ⟨hnone, -⟩
      · exact .inr ⟨rfl, st, rfl, by rw [values_cons_same, hvalues]⟩
      · cases hnone
  | other hk _ ih => rwa [values_cons_other hk]

theorem exists_untagged_of_nil (h : values ms statusKey = []) (status₀ : Option Status) :
    ∃ rest, Untagged status₀ ms status₀ rest := by
  induction ms with
  | nil => exact ⟨[], .nil⟩
  | cons m ms ih =>
      obtain ⟨k, t⟩ := m
      by_cases hk : k = statusKey
      · subst hk
        simp at h
      · rw [values_cons_other hk] at h
        obtain ⟨rest, hrest⟩ := ih h
        exact ⟨_, .other hk hrest⟩

theorem exists_untagged (h : values ms statusKey = [.text status.name]) :
    ∃ rest, Untagged none ms (some status) rest := by
  induction ms with
  | nil => cases h
  | cons m ms ih =>
      obtain ⟨k, t⟩ := m
      by_cases hk : k = statusKey
      · subst hk
        rw [values_cons_same] at h
        obtain ⟨rfl, hnil⟩ := List.cons.inj h
        obtain ⟨rest, hrest⟩ := exists_untagged_of_nil hnil (some status)
        exact ⟨rest, .status hrest⟩
      · rw [values_cons_other hk] at h
        obtain ⟨rest, hrest⟩ := ih h
        exact ⟨_, .other hk hrest⟩

theorem Untagged.fields_iff (h : Untagged status₀ ms status₁ rest) (hkeys : statusKey ∉ keys) :
    List.Forall₂ (fun k v => values rest k = Option.toList v) keys vs ↔
      List.Forall₂ (fun k v => values ms k = Option.toList v) keys vs := by
  induction keys generalizing vs with
  | nil => rw [List.forall₂_nil_left_iff, List.forall₂_nil_left_iff]
  | cons k keys ih =>
      rw [List.mem_cons, not_or] at hkeys
      rw [List.forall₂_cons_left_iff, List.forall₂_cons_left_iff]
      simp only [ih hkeys.2, h.values_eq (Ne.symm hkeys.1)]

/-- The fields besides the status are those of what is left without it. -/
theorem exists_tagged_iff (status : Status) (hkeys : statusKey ∉ keys) :
    (∃ t, Tagged full status t ∧ t.HasFields keys vs) ↔
      full.HasFields (statusKey :: keys) (some (.text status.name) :: vs) := by
  constructor
  · rintro ⟨t, htagged, hfields⟩
    cases htagged with
    | members huntagged =>
        rw [hasFields_object_iff, huntagged.fields_iff hkeys] at hfields
        rcases huntagged.values_status with ⟨-, hnone⟩ | ⟨-, st, hst, hvalues⟩
        · cases hnone
        · obtain rfl := Option.some.inj hst
          exact hasFields_object_iff.mpr (.cons hvalues hfields)
    | inOrder =>
        -- in a list the status is the first item, and the fields are those behind it
        obtain ⟨n, hn, rfl⟩ := hasFields_array_iff.mp hfields
        exact hasFields_array_iff.mpr ⟨n, by simp; omega, rfl⟩
  · intro h
    generalize hus : some (Tree.text status.name) :: vs = us at h
    cases h with
    | members hfields =>
        subst hus
        obtain ⟨hvalues, hfields⟩ := List.forall₂_cons.mp hfields
        obtain ⟨rest, huntagged⟩ := exists_untagged hvalues
        exact ⟨_, .members huntagged,
          hasFields_object_iff.mpr ((huntagged.fields_iff hkeys).mpr hfields)⟩
    | @inOrder ts n hn =>
        cases ts with
        | nil =>
            obtain ⟨n, rfl⟩ : ∃ m, n = m + 1 := ⟨n - 1, by simp at hn; omega⟩
            cases (List.cons.inj hus).1
        | cons t ts =>
            obtain ⟨ht, rfl⟩ := List.cons.inj hus
            obtain rfl := Option.some.inj ht
            exact ⟨_, .inOrder, hasFields_array_iff.mpr ⟨n, by simp at hn; omega, rfl⟩⟩

end

/-! ### Answers -/

/-- The place that a diagnostic is given: none where nothing or null stands, else a source and a
count of characters. -/
def IsPlace (place : Option Tree) : Option SourcePosition → Prop
  | none => place = none ∨ place = some .null
  | some p => ∃ t n, place = some t ∧
      t.HasFields ["source", "offset"] [some (.text p.source), some (.number (.nat n))] ∧
      UInt64.ofNat n = p.offset

/-- The values that are answers: an `ok` with any payload, which is null where there is none, or
an `error` with a message and perhaps a place. -/
inductive Answers : Tree → Response → Prop
  | ok {t payload} : t.HasFields ["status", "payload"] [some (.text "ok"), payload] →
    Answers t (.ok (payload.getD .null).settle)
  | error {t message place position} :
    t.HasFields ["status", "message", "position"] [some (.text "error"), some (.text message), place] →
    IsPlace place position → Answers t (.error ⟨message, position⟩)

theorem position_ofTree_iff {e : Excess} {p : SourcePosition} :
    SourcePosition.decoder.ofTree e t = .ok p ↔
      ∃ n, t.HasFields ["source", "offset"] [some (.text p.source), some (.number (.nat n))] ∧
        UInt64.ofNat n = p.offset := by
  rw [SourcePosition.decoder, Fields.decoder_ofTree_iff]
  simp only [Fields.ofTree_eq_ok_iff (f := SourcePosition.fields) (by decide)]
  constructor
  · rintro ⟨⟨source, offset, u⟩, ⟨vs, hfields, hreads⟩, rfl⟩
    simp only [SourcePosition.fields, Fields.reads_required, Fields.reads_done,
      Decoder.text_ofTree_iff, Decoder.count_ofTree_iff] at hreads
    obtain ⟨_, _, rfl, rfl, _, _, rfl, ⟨n, rfl, rfl⟩, rfl⟩ := hreads
    exact ⟨n, hfields, rfl⟩
  · rintro ⟨n, hfields, hn⟩
    refine ⟨(p.source, p.offset, ()), ⟨_, hfields, ?_⟩, rfl⟩
    simp only [SourcePosition.fields, Fields.reads_required, Fields.reads_done,
      Decoder.text_ofTree_iff, Decoder.count_ofTree_iff]
    exact ⟨_, _, rfl, rfl, _, _, rfl, ⟨n, rfl, hn⟩, rfl⟩

theorem isPlace_iff {e : Excess} {place : Option Tree} {position : Option SourcePosition} :
    (match place with
      | some t => SourcePosition.decoder.optional.ofTree e t = .ok position
      | none => some none = some position) ↔ IsPlace place position := by
  cases place with
  | none => cases position <;> simp [IsPlace]
  | some t =>
      have hnull (p : SourcePosition) : SourcePosition.decoder.ofTree e t = .ok p → t ≠ .null := by
        rintro h rfl
        obtain ⟨n, hfields, -⟩ := position_ofTree_iff.mp h
        exact not_hasFields_null hfields
      simp only [Decoder.optional_ofTree_iff]
      cases position with
      | none => simp [IsPlace]
      | some p =>
          simp only [IsPlace]
          rw [and_iff_right_of_imp (hnull p), position_ofTree_iff]
          simp

theorem ofTree_ok_iff {response : Response} :
    ofTree .ok t = .ok response ↔
      ∃ payload, t.HasFields ["payload"] [payload] ∧ response = .ok (payload.getD .null).settle := by
  simp only [ofTree, map_eq_ok_iff, Fields.ofTree_eq_ok_iff (f := okFields) (by decide)]
  constructor
  · rintro ⟨⟨payload, u⟩, ⟨vs, hfields, v, ws, rfl, hv, rfl⟩, rfl⟩
    refine ⟨v, hfields, ?_⟩
    cases v with
    | none =>
        obtain rfl := Option.some.inj hv
        rfl
    | some t =>
        obtain rfl := Except.ok.inj hv
        rfl
  · rintro ⟨v, hfields, rfl⟩
    refine ⟨((v.getD .null).settle, ()), ⟨_, hfields, v, [], rfl, ?_, rfl⟩, rfl⟩
    cases v <;> rfl

theorem ofTree_error_iff {response : Response} :
    ofTree .error t = .ok response ↔
      ∃ message place position, t.HasFields ["message", "position"] [some (.text message), place] ∧
        IsPlace place position ∧ response = .error ⟨message, position⟩ := by
  simp only [ofTree, map_eq_ok_iff, Fields.ofTree_eq_ok_iff (f := Diagnostic.fields) (by decide)]
  constructor
  · rintro ⟨⟨message, position, u⟩, ⟨vs, hfields, hreads⟩, rfl⟩
    simp only [Diagnostic.fields, Fields.reads_required, Decoder.text_ofTree_iff] at hreads
    obtain ⟨_, _, rfl, rfl, place, _, rfl, hplace, rfl⟩ := hreads
    exact ⟨message, place, position, hfields, isPlace_iff.mp hplace, rfl⟩
  · rintro ⟨message, place, position, hfields, hplace, rfl⟩
    refine ⟨(message, position, ()), ⟨_, hfields, ?_⟩, rfl⟩
    simp only [Diagnostic.fields, Fields.reads_required, Decoder.text_ofTree_iff]
    exact ⟨_, _, rfl, rfl, place, _, rfl, isPlace_iff.mpr hplace, rfl⟩

/-- An output is an answer exactly if it spells one, not nested too deep. -/
theorem decode_eq_ok_iff {text : Bytes} {response : Response} :
    decode text = .ok response ↔
      ∃ t, t.SpelledIn text ∧ t.depth ≤ maxDepth ∧ Answers t response := by
  have hdecode : decode text = .ok response ↔ ∃ status t,
      (∃ r, readTagged text = .ok ((status, t), r) ∧ Blank r) ∧ ofTree status t = .ok response := by
    unfold decode
    cases readTagged text with
    | error f => simp
    | ok tagged =>
        obtain ⟨⟨status, t⟩, r⟩ := tagged
        simp only [← readEnd_eq_ok_iff]
        cases htree : ofTree status t with
        | error c => simp [htree]
        | ok response => cases hend : readEnd r <;> simp [htree, hend]
  rw [hdecode]
  simp only [exists_readTagged_iff]
  constructor
  · rintro ⟨status, t, ⟨full, hfull, hdepth, htagged⟩, h⟩
    refine ⟨full, hfull, hdepth, ?_⟩
    cases status with
    | ok =>
        obtain ⟨payload, hfields, rfl⟩ := ofTree_ok_iff.mp h
        exact .ok ((exists_tagged_iff _ (by decide)).mp ⟨t, htagged, hfields⟩)
    | error =>
        obtain ⟨message, place, position, hfields, hplace, rfl⟩ := ofTree_error_iff.mp h
        exact .error ((exists_tagged_iff _ (by decide)).mp ⟨t, htagged, hfields⟩) hplace
  · rintro ⟨full, hfull, hdepth, h⟩
    cases h with
    | ok hfields =>
        obtain ⟨t, htagged, hfields⟩ := (exists_tagged_iff .ok (by decide)).mpr hfields
        exact ⟨.ok, t, ⟨full, hfull, hdepth, htagged⟩, ofTree_ok_iff.mpr ⟨_, hfields, rfl⟩⟩
    | error hfields hplace =>
        obtain ⟨t, htagged, hfields⟩ := (exists_tagged_iff .error (by decide)).mpr hfields
        exact ⟨.error, t, ⟨full, hfull, hdepth, htagged⟩,
          ofTree_error_iff.mpr ⟨_, _, _, hfields, hplace, rfl⟩⟩

end SourceDesk.Response
