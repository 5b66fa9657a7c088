import SourceDesk.Proofs.Json.Record
import SourceDesk.Proofs.Json.Skip

/-! Values that are read from a text without a tree in between. A decoder reads from a text what
it reads from the value that the text spells: members that no field wants are passed over, blanks
and escapes make no difference. -/
namespace SourceDesk.Json

variable {a v w x : Bytes} {t : Tree} {e : Excess} {first : Bool} {fuel : Nat} {α β : Type}

/-- Null alone begins with its first letter. -/
theorem Tree.SpelledBy.start_of_ne_null (ht : t.SpelledBy v) (hnull : t ≠ .null) :
    ∃ b v', v = b :: v' ∧ isBlank b = false ∧ b ≠ 0x6E := by
  obtain ⟨b, v', rfl, hblank, -⟩ := ht.start
  refine ⟨b, v', rfl, hblank, ?_⟩
  rintro rfl
  -- a text that begins with the letter is read as null or not at all
  have hread := readTree_complete blank_nil ht delimited_nil
    (show 2 * (0x6E :: v').length ≤ 2 * v'.length + 2 from Nat.le_refl _) (Nat.le_refl _)
  rw [List.nil_append, List.append_nil] at hread
  simp only [readTree, skipBlanks_cons hblank, if_true] at hread
  obtain ⟨r, -, heq⟩ := map_eq_ok_iff.mp hread
  exact hnull (Prod.mk.inj heq).1.symm

/-- Whatever a decoder reads from a value it reads from the spellings of the value, in front of
anything that does not go on with them. -/
def Decoder.Faithful (d : Decoder α) : Prop :=
  ∀ ⦃e t val a v x⦄, Blank a → t.SpelledBy v → Delimited x → d.ofTree e t = .ok val →
    d.direct (a ++ (v ++ x)) = .ok (val, x)

namespace Decoder

variable {d : Decoder α}

/-! ### Single values -/

theorem faithful_named (expected : String) : (named expected).Faithful := by
  intro e t s a v x ha ht _ hread
  cases t with
  | text s' =>
      obtain rfl := Except.ok.inj hread
      obtain ⟨r, hr, hstring⟩ := (spelledText_iff (r := x)).mp ⟨v, rfl, ht⟩
      have hblank : isBlank quote = false := rfl
      simp [named, readText, skipBlanks_append ha, hr, hblank, hstring]
  | _ => cases hread

theorem Faithful.map (h : d.Faithful) (f : α → β) : (d.map f).Faithful := by
  intro e t val a v x ha ht hx hread
  obtain ⟨val', hread', rfl⟩ := map_eq_ok_iff.mp hread
  simp [Decoder.map, h ha ht hx hread', Except.map]

theorem faithful_text : text.Faithful := faithful_named "a string"

theorem faithful_path : path.Faithful := (faithful_named "path string").map Path.ofText

theorem faithful_count : count.Faithful := by
  intro e t val a v x ha ht hx hread
  obtain ⟨k, rfl, rfl⟩ := count_ofTree_iff.mp hread
  have hk : (Number.nat k).SpelledBy v := ht
  have hnumber := readNumber_complete hk hx
  obtain ⟨b, v', rfl, hb⟩ := hk.start
  rw [List.cons_append] at hnumber
  simp [count, skipBlanks_append ha, (numeral_start hb).1, hb, hnumber, countOf]

theorem Faithful.optional (h : d.Faithful) : d.optional.Faithful := by
  intro e t o a v x ha ht hx hread
  have hread := optional_ofTree_iff.mp hread
  cases o with
  | none =>
      obtain rfl := hread
      obtain rfl : v = 0x6E :: nullTail := Eq.trans ht null_eq
      have hblank : isBlank 0x6E = false := rfl
      have hliteral : readLiteral nullTail (nullTail ++ x) = .ok x := readLiteral_eq_ok_iff.mpr rfl
      simp [Decoder.optional, skipBlanks_append ha, hblank, hliteral, Except.map]
  | some val =>
      obtain ⟨hnull, hread⟩ := hread
      have hdirect := h blank_nil ht hx hread
      obtain ⟨b, v', rfl, hblank, hletter⟩ := ht.start_of_ne_null hnull
      simp only [Decoder.optional, skipBlanks_append ha, List.cons_append, skipBlanks_cons hblank]
      split
      · rename_i heq
        exact absurd (List.cons.inj heq).1 hletter
      · rw [List.nil_append, List.cons_append] at hdirect
        rw [hdirect]
        rfl

/-! ### Lists -/

theorem Faithful.readElements (h : d.Faithful) {ts : List Tree} {as : List α}
    (hread : List.Forall₂ (fun t a => d.ofTree e t = .ok a) ts as) (x : Bytes)
    (hts : SpelledItems first ts w) (hfuel : w.length < fuel) :
    d.readElements fuel first (w ++ closeBracket :: x) = .ok (as, closeBracket :: x) := by
  induction hread generalizing first w fuel with
  | nil =>
      obtain ⟨fuel, rfl⟩ := Nat.exists_eq_succ_of_ne_zero (Nat.ne_zero_of_lt hfuel)
      have hstart : readElementStart first (w ++ closeBracket :: x) = .ok none :=
        readElementStart_eq_none_iff.mpr ⟨w, x, rfl, hts⟩
      have hblank : isBlank closeBracket = false := rfl
      simp [Decoder.readElements, hstart, skipBlanks_append hts, hblank]
  | @cons t val ts as hval _ ih =>
      obtain ⟨fuel, rfl⟩ := Nat.exists_eq_succ_of_ne_zero (Nat.ne_zero_of_lt hfuel)
      obtain ⟨gap, v, rest, rfl, hgap, ht, hts⟩ := hts
      have hlength := ht.length_pos
      have hstart := readElementStart_gap hgap ht (rest ++ closeBracket :: x)
      have hdirect := h blank_nil ht (hts.delimited x) hval
      have hmore := ih hts (show rest.length < fuel by simp at hfuel; omega)
      rw [List.nil_append] at hdirect
      simp [Decoder.readElements, hstart, hdirect, hmore, Except.map]

theorem Faithful.list (h : d.Faithful) : d.list.Faithful := by
  intro e t as a v x ha ht _ hread
  obtain ⟨ts, rfl, hvals⟩ := list_ofTree_iff.mp hread
  obtain ⟨w, rfl, hts⟩ := ht
  have hitems := h.readElements hvals x hts (length_lt_fuel w closeBracket x)
  have hblank : isBlank openBracket = false := rfl
  simp only [Decoder.list, skipBlanks_append ha, List.cons_append, List.append_assoc,
    List.nil_append, skipBlanks_cons hblank, if_true, hitems, Except.map]
  rfl

end Decoder

/-! ### Records -/

namespace Fields

/-- Every field is read faithfully. -/
def Faithful : {α : Type} → Fields α → Prop
  | _, .done => True
  | _, .field _ d _ rest => d.Faithful ∧ rest.Faithful

theorem faithful_field {k : String} {d : Decoder α} {absent : Option α} {rest : Fields β} :
    (Fields.field k d absent rest).Faithful ↔ d.Faithful ∧ rest.Faithful := Iff.rfl

/-- What a member puts into a slot is read faithfully. -/
theorem Faithful.fills : {α : Type} → {f : Fields α} → f.Faithful → {key : String} →
    {slots : f.Slots} → {direct : Bytes → Reading f.Slots} →
    {ofTree : Excess → Tree → Except Cause f.Slots} →
    f.member key slots = .fills direct ofTree → (Decoder.mk direct ofTree).Faithful
  | _, .field k d _ rest, hf, key, slots, direct, ofTree, h => by
      obtain ⟨hd, hrest⟩ := faithful_field.mp hf
      simp only [member] at h
      split at h
      · split at h
        · cases h
        · obtain ⟨rfl, rfl⟩ := Member.fills.inj h
          exact hd.map fun a => (some a, slots.2)
      · split at h
        · cases h
        · cases h
        · rename_i hmember
          obtain ⟨rfl, rfl⟩ := Member.fills.inj h
          exact (hrest.fills hmember).map fun y => (slots.1, y)

/-- The members of an object are read as those of its value are taken. -/
theorem Faithful.readMembers {f : Fields α} (hf : f.Faithful) {ms : List (String × Tree)}
    {slots slots' : f.Slots} (htake : f.takeMembers e slots ms = .ok slots') (x : Bytes)
    (hms : SpelledMembers first ms w) (hfuel : w.length < fuel) :
    f.readMembers fuel first slots (w ++ closeBrace :: x) = .ok (slots', closeBrace :: x) := by
  induction ms generalizing first w fuel slots with
  | nil =>
      obtain ⟨fuel, rfl⟩ := Nat.exists_eq_succ_of_ne_zero (Nat.ne_zero_of_lt hfuel)
      obtain rfl := Except.ok.inj htake
      have hstart : readKey first (w ++ closeBrace :: x) = .ok none :=
        readKey_eq_none_iff.mpr ⟨w, x, rfl, hms⟩
      have hblank : isBlank closeBrace = false := rfl
      simp [Fields.readMembers, hstart, skipBlanks_append hms, hblank]
  | cons m ms ih =>
      obtain ⟨fuel, rfl⟩ := Nat.exists_eq_succ_of_ne_zero (Nat.ne_zero_of_lt hfuel)
      obtain ⟨k, t⟩ := m
      obtain ⟨gap, key, _, v, rest, rfl, hgap, hk, ⟨c, b, rfl, hc, hb⟩, ht, hms⟩ := hms
      have hlength := ht.length_pos
      have hfuel : rest.length < fuel := by
        simp at hfuel
        omega
      have hstart := readKey_gap hgap hk (c ++ colon :: (b ++ (v ++ (rest ++ closeBrace :: x))))
      have hcolon := readColon_gap hc (b ++ (v ++ (rest ++ closeBrace :: x)))
      simp only [takeMembers] at htake
      simp only [Fields.readMembers, List.append_assoc, List.cons_append, hstart, hcolon]
      split at htake
      · cases htake
      · rename_i hmember
        simp only [skipValue_complete hb ht (hms.delimited x)]
        exact ih htake hms hfuel
      · rename_i direct ofTree hmember
        split at htake
        · cases htake
        · rename_i slots hread
          have hdirect : direct (b ++ (v ++ (rest ++ closeBrace :: x))) =
              .ok (slots, rest ++ closeBrace :: x) :=
            hf.fills hmember hb ht (hms.delimited x) hread
          simp only [hdirect]
          exact ih htake hms hfuel

/-- The items of a list are read as those of its value are taken, up to blanks in front of the
closing bracket. -/
theorem Faithful.readValues (wanted : String) (x : Bytes) : {α : Type} → {f : Fields α} →
    f.Faithful → {taken : Nat} → {ts : List Tree} → {w : Bytes} → {val : α} →
    f.takeValues wanted e taken ts = .ok (val, []) → SpelledItems (taken == 0) ts w →
    ∃ b, Blank b ∧ f.readValues wanted taken (w ++ closeBracket :: x) =
      .ok (val, b ++ closeBracket :: x)
  | _, .done, _, taken, ts, w, (), htake, hts => by
      obtain ⟨-, rfl⟩ := Prod.mk.inj (Except.ok.inj htake)
      exact ⟨w, hts, rfl⟩
  | _, .field k d absent rest, hf, taken, [], w, (val, vals), htake, hts => by
      obtain ⟨-, hrest⟩ := faithful_field.mp hf
      have hstart : readElementStart (taken == 0) (w ++ closeBracket :: x) = .ok none :=
        readElementStart_eq_none_iff.mpr ⟨w, x, rfl, hts⟩
      simp only [takeValues] at htake
      cases absent with
      | none => cases htake
      | some val' =>
          obtain ⟨⟨vals', ts⟩, htake', heq⟩ := map_eq_ok_iff.mp htake
          obtain ⟨heq, rfl⟩ := Prod.mk.inj heq
          obtain ⟨rfl, rfl⟩ := Prod.mk.inj heq
          obtain ⟨b, hb, hmore⟩ := hrest.readValues wanted x htake' hts
          exact ⟨b, hb, by simp [Fields.readValues, hstart, hmore, Except.map]⟩
  | _, .field k d absent rest, hf, taken, t :: ts, _, (val, vals), htake,
      ⟨gap, v, w, rfl, hgap, ht, hts⟩ => by
      obtain ⟨hd, hrest⟩ := faithful_field.mp hf
      have hstart := readElementStart_gap hgap ht (w ++ closeBracket :: x)
      simp only [takeValues] at htake
      split at htake
      · cases htake
      · rename_i val' hread
        obtain ⟨⟨vals', ts⟩, htake', heq⟩ := map_eq_ok_iff.mp htake
        obtain ⟨heq, rfl⟩ := Prod.mk.inj heq
        obtain ⟨rfl, rfl⟩ := Prod.mk.inj heq
        have hdirect := hd blank_nil ht (hts.delimited x) hread
        obtain ⟨b, hb, hmore⟩ := hrest.readValues wanted x htake' hts
        rw [List.nil_append] at hdirect
        exact ⟨b, hb, by simp [Fields.readValues, hstart, hdirect, hmore, Except.map]⟩

theorem closeList_append {b : Bytes} (hb : Blank b) (x : Bytes) :
    closeList (b ++ closeBracket :: x) = .ok x := by
  have hblank : isBlank closeBracket = false := rfl
  simp [closeList, skipBlanks_append hb, hblank]

/-- A record is read faithfully if each of its fields is. -/
theorem Faithful.decoder {f : Fields α} (hf : f.Faithful) (name : String) (make : α → β) :
    (f.decoder name make).Faithful := by
  refine Decoder.Faithful.map (d := ⟨_, _⟩) ?_ make
  intro e t val a v x ha ht _ hread
  cases t with
  | object ms =>
      obtain ⟨w, rfl, hms⟩ := ht
      simp only [ofTree] at hread
      split at hread
      · cases hread
      · rename_i slots htake
        have hmembers := hf.readMembers htake x hms (length_lt_fuel w closeBrace x)
        have hblank : isBlank openBrace = false := rfl
        simp only [direct, skipBlanks_append ha, List.cons_append, List.append_assoc,
          List.nil_append, skipBlanks_cons hblank, if_true, hmembers, hread]
        rfl
  | array ts =>
      obtain ⟨w, rfl, hts⟩ := ht
      simp only [ofTree] at hread
      split at hread
      · cases hread
      · rename_i val' htake
        obtain rfl := Except.ok.inj hread
        obtain ⟨b, hb, hvalues⟩ := hf.readValues _ x htake hts
        have hblank : isBlank openBracket = false := rfl
        have hkind : openBracket ≠ openBrace := by decide
        simp only [direct, skipBlanks_append ha, List.cons_append, List.append_assoc,
          List.nil_append, skipBlanks_cons hblank, hkind, if_false, if_true, hvalues,
          closeList_append hb]
        rfl
      · cases hread
  | _ => cases hread

end Fields

/-- A text that spells a value is decoded as the value is read. -/
theorem Decoder.Faithful.decode {d : Decoder α} (h : d.Faithful) {text : Bytes} {val : α}
    (ht : t.SpelledIn text) (hread : d.ofTree e t = .ok val) : d.decode text = .ok val := by
  obtain ⟨a, v, b, rfl, ha, ht, hb⟩ := ht
  have hx : Delimited b := by simpa using hb.delimited delimited_nil
  have hdirect := h ha ht hx hread
  rw [List.append_assoc, Decoder.decode, hdirect]
  simp only [readEnd_eq_ok_iff.mpr hb]

/-! ### What can be read -/

/-- The values that a decoder reads from some text. -/
def Decoder.Yields (d : Decoder α) (val : α) : Prop := ∃ s r, d.direct s = .ok (val, r)

theorem Decoder.yields_map_iff {d : Decoder α} {f : α → β} {val : β} :
    (d.map f).Yields val ↔ ∃ val', d.Yields val' ∧ f val' = val := by
  constructor
  · rintro ⟨s, r, h⟩
    obtain ⟨⟨val', r'⟩, hread, heq⟩ := map_eq_ok_iff.mp h
    exact ⟨val', ⟨s, r', hread⟩, (Prod.mk.inj heq).1⟩
  · rintro ⟨val', ⟨s, r, hread⟩, rfl⟩
    exact ⟨s, r, map_eq_ok_iff.mpr ⟨_, hread, rfl⟩⟩

theorem Decoder.Yields.of_optional {d : Decoder α} {val : α} (h : d.optional.Yields (some val)) :
    d.Yields val := by
  obtain ⟨s, r, h⟩ := h
  simp only [Decoder.optional] at h
  split at h
  · obtain ⟨r', -, heq⟩ := map_eq_ok_iff.mp h
    cases heq
  · obtain ⟨⟨val', r'⟩, hread, heq⟩ := map_eq_ok_iff.mp h
    obtain ⟨heq, -⟩ := Prod.mk.inj heq
    obtain rfl := Option.some.inj heq
    exact ⟨_, r', hread⟩

theorem Decoder.yields_of_decode {d : Decoder α} {text : Bytes} {val : α}
    (h : d.decode text = .ok val) : d.Yields val := by
  unfold Decoder.decode at h
  split at h
  · cases h
  · rename_i val' r hread
    split at h
    · cases h
    · exact ⟨text, r, Except.ok.inj h ▸ hread⟩

namespace Fields

/-- The records in which each field has a value that is read, or the one for its absence. -/
def Yields : {α : Type} → Fields α → α → Prop
  | _, .done, _ => True
  | _, .field _ d absent rest, (val, vals) => (d.Yields val ∨ absent = some val) ∧ rest.Yields vals

/-- The slots that hold only values that are read. -/
def Holds : {α : Type} → (f : Fields α) → f.Slots → Prop
  | _, .done, _ => True
  | _, .field _ d _ rest, slots => (∀ val, slots.1 = some val → d.Yields val) ∧ rest.Holds slots.2

theorem holds_field {k : String} {d : Decoder α} {absent : Option α} {rest : Fields β}
    {slots : (Fields.field k d absent rest).Slots} :
    (Fields.field k d absent rest).Holds slots ↔
      (∀ val, slots.1 = some val → d.Yields val) ∧ rest.Holds slots.2 := Iff.rfl

theorem holds_noSlots : {α : Type} → (f : Fields α) → f.Holds f.noSlots
  | _, .done => trivial
  | _, .field _ _ _ rest => ⟨fun _ h => (nomatch h), holds_noSlots rest⟩

/-- Reading a member keeps to what is read. -/
theorem Holds.fills : {α : Type} → {f : Fields α} → {slots : f.Slots} → f.Holds slots →
    {key : String} → {direct : Bytes → Reading f.Slots} →
    {ofTree : Excess → Tree → Except Cause f.Slots} →
    f.member key slots = .fills direct ofTree → {s r : Bytes} → {slots' : f.Slots} →
    direct s = .ok (slots', r) → f.Holds slots'
  | _, .field k d _ rest, slots, hf, key, direct, ofTree, h, s, r, slots', hread => by
      obtain ⟨hslot, hslots⟩ := holds_field.mp hf
      simp only [member] at h
      split at h
      · split at h
        · cases h
        · obtain ⟨rfl, -⟩ := Member.fills.inj h
          obtain ⟨⟨val, r'⟩, hval, heq⟩ := map_eq_ok_iff.mp hread
          obtain ⟨rfl, -⟩ := Prod.mk.inj heq
          refine ⟨fun val' heq => ?_, hslots⟩
          obtain rfl := Option.some.inj heq
          exact ⟨s, r', hval⟩
      · split at h
        · cases h
        · cases h
        · rename_i hmember
          obtain ⟨rfl, -⟩ := Member.fills.inj h
          obtain ⟨⟨vals, r'⟩, hvals, heq⟩ := map_eq_ok_iff.mp hread
          obtain ⟨rfl, -⟩ := Prod.mk.inj heq
          exact ⟨hslot, hslots.fills hmember hvals⟩

theorem Holds.readMembers {f : Fields α} {slots slots' : f.Slots} (h : f.Holds slots) {s r : Bytes}
    (hread : f.readMembers fuel first slots s = .ok (slots', r)) : f.Holds slots' := by
  induction fuel generalizing first slots s with
  | zero => cases hread
  | succ fuel ih =>
      simp only [Fields.readMembers] at hread
      split at hread
      · cases hread
      · obtain ⟨rfl, -⟩ := Prod.mk.inj (Except.ok.inj hread)
        exact h
      · split at hread
        · cases hread
        · split at hread
          · cases hread
          · split at hread
            · cases hread
            · exact ih h hread
        · rename_i hmember
          split at hread
          · cases hread
          · split at hread
            · cases hread
            · rename_i hdirect
              exact ih (h.fills hmember hdirect) hread

theorem Holds.finish : {α : Type} → {f : Fields α} → {slots : f.Slots} → f.Holds slots →
    {val : α} → f.finish slots = .ok val → f.Yields val
  | _, .done, _, _, _, _ => trivial
  | _, .field k d absent rest, slots, hf, (val, vals), h => by
      obtain ⟨hslot, hslots⟩ := holds_field.mp hf
      obtain ⟨hval, hvals⟩ := finish_field_iff.mp h
      refine ⟨?_, hslots.finish hvals⟩
      cases hfirst : slots.1 with
      | none => exact .inr (by simpa [hfirst] using hval)
      | some val' => exact .inl (hslot val (by simpa [hfirst] using hval))

theorem yields_of_readValues (wanted : String) : {α : Type} → (f : Fields α) → {taken : Nat} →
    {s r : Bytes} → {val : α} → f.readValues wanted taken s = .ok (val, r) → f.Yields val
  | _, .done, _, _, _, _, _ => trivial
  | _, .field k d absent rest, taken, s, r, (val, vals), h => by
      simp only [readValues] at h
      split at h
      · cases h
      · split at h
        · cases h
        · obtain ⟨⟨vals', r'⟩, hrest, heq⟩ := map_eq_ok_iff.mp h
          obtain ⟨heq, -⟩ := Prod.mk.inj heq
          obtain ⟨rfl, rfl⟩ := Prod.mk.inj heq
          exact ⟨.inr rfl, yields_of_readValues wanted rest hrest⟩
      · split at h
        · cases h
        · rename_i val' s' hval
          obtain ⟨⟨vals', r'⟩, hrest, heq⟩ := map_eq_ok_iff.mp h
          obtain ⟨heq, -⟩ := Prod.mk.inj heq
          obtain ⟨rfl, rfl⟩ := Prod.mk.inj heq
          exact ⟨.inl ⟨_, _, hval⟩, yields_of_readValues wanted rest hrest⟩

/-- Whatever record is read, its fields are read or do without. -/
theorem yields_of_decoder {f : Fields α} {name : String} {make : α → β} {val : β}
    (h : (f.decoder name make).Yields val) : ∃ val', f.Yields val' ∧ make val' = val := by
  obtain ⟨val', ⟨s, r, hread⟩, rfl⟩ := Decoder.yields_map_iff.mp h
  refine ⟨val', ?_, rfl⟩
  simp only [direct] at hread
  split at hread
  · cases hread
  · split at hread
    · split at hread
      · cases hread
      · rename_i slots r' hmembers
        split at hread
        · cases hread
        · rename_i hfinish
          obtain ⟨rfl, -⟩ := Prod.mk.inj (Except.ok.inj hread)
          exact ((holds_noSlots f).readMembers hmembers).finish hfinish
    · split at hread
      · split at hread
        · cases hread
        · rename_i val'' r' hvalues
          obtain ⟨r'', -, heq⟩ := map_eq_ok_iff.mp hread
          obtain ⟨rfl, -⟩ := Prod.mk.inj heq
          exact yields_of_readValues _ f hvalues
      · cases hread

end Fields

end SourceDesk.Json
