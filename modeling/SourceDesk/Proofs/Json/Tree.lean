import SourceDesk.Proofs.Json.Numeral
import SourceDesk.Proofs.Json.Scan

/-! Values, read: the reader of trees takes exactly the spellings of the grammar, down to the
depth that it is given. -/
namespace SourceDesk.Json

variable {s r a v w x gap : Bytes} {b : UInt8} {first : Bool} {depth fuel : Nat}

/-! ### Gaps -/

/-- No item is left in front of the closing bracket. -/
theorem readElementStart_eq_none_iff :
    readElementStart first s = .ok none ↔ ∃ a r, s = a ++ closeBracket :: r ∧ Blank a := by
  have hblank : isBlank closeBracket = false := by decide
  constructor
  · intro h
    unfold readElementStart at h
    split at h
    · cases h
    rename_i b r hs
    obtain ⟨a, rfl, ha, -⟩ := skipBlanks_eq_cons_iff.mp hs
    split at h
    · rename_i hb
      exact ⟨a, r, by rw [hb], ha⟩
    split at h
    · cases h
    split at h
    · cases h
    split at h
    · cases h
    split at h <;> cases h
  · rintro ⟨a, r, rfl, ha⟩
    simp [readElementStart, skipBlanks_append ha, hblank]

/-- An item is left behind a gap. -/
theorem readElementStart_eq_some_iff :
    readElementStart first s = .ok (some r) ↔
      ∃ gap c t, s = gap ++ r ∧ IsGap first gap ∧ r = c :: t ∧ isBlank c = false ∧
        c ≠ closeBracket := by
  have hblank : isBlank comma = false := by decide
  constructor
  · intro h
    unfold readElementStart at h
    split at h
    · cases h
    rename_i b t hs
    obtain ⟨a, rfl, ha, hb⟩ := skipBlanks_eq_cons_iff.mp hs
    split at h
    · cases h
    rename_i hclose
    split at h
    · rename_i hfirst
      obtain rfl := Option.some.inj (Except.ok.inj h)
      exact ⟨a, b, t, rfl, by simpa [hfirst, isGap_true] using ha, rfl, hb, hclose⟩
    rename_i hfirst
    split at h
    · cases h
    rename_i hcomma
    split at h
    · cases h
    rename_i c t' ht
    obtain ⟨a', rfl, ha', hc⟩ := skipBlanks_eq_cons_iff.mp ht
    split at h
    · cases h
    rename_i hclose'
    obtain rfl := Option.some.inj (Except.ok.inj h)
    rw [ne_eq, not_not] at hcomma
    rw [Bool.not_eq_true] at hfirst
    exact ⟨a ++ comma :: a', c, t', by simp [hcomma],
      by rw [hfirst, isGap_false]; exact ⟨a, a', rfl, ha, ha'⟩, rfl, hc, hclose'⟩
  · rintro ⟨gap, c, t, rfl, hgap, rfl, hc, hclose⟩
    cases first with
    | true =>
        simp [readElementStart, skipBlanks_append (isGap_true.mp hgap), hc, hclose]
    | false =>
        obtain ⟨a, b, rfl, ha, hb⟩ := isGap_false.mp hgap
        have hne : comma ≠ closeBracket := by decide
        simp [readElementStart, skipBlanks_append ha, skipBlanks_append hb, hblank, hc, hclose, hne]

theorem spelledText_iff {k : String} :
    (∃ key, s = key ++ r ∧ SpelledText k key) ↔ ∃ t, s = quote :: t ∧ readString t = .ok (k, r) := by
  constructor
  · rintro ⟨_, rfl, w, rfl, hw⟩
    exact ⟨w ++ quote :: r, by simp, readString_eq_ok_iff.mpr ⟨w, rfl, hw⟩⟩
  · rintro ⟨t, rfl, ht⟩
    obtain ⟨w, rfl, hw⟩ := readString_eq_ok_iff.mp ht
    exact ⟨quote :: w ++ [quote], by simp, w, rfl, hw⟩

/-- No member is left in front of the closing brace. -/
theorem readKey_eq_none_iff :
    readKey first s = .ok none ↔ ∃ a r, s = a ++ closeBrace :: r ∧ Blank a := by
  have hblank : isBlank closeBrace = false := by decide
  constructor
  · intro h
    simp only [readKey] at h
    split at h
    · cases h
    rename_i b r hs
    obtain ⟨a, rfl, ha, -⟩ := skipBlanks_eq_cons_iff.mp hs
    split at h
    · rename_i hb
      exact ⟨a, r, by rw [hb], ha⟩
    split at h
    · split at h
      · split at h <;> cases h
      · cases h
    split at h
    · cases h
    split at h
    · cases h
    split at h
    · split at h <;> cases h
    split at h <;> cases h
  · rintro ⟨a, r, rfl, ha⟩
    simp [readKey, skipBlanks_append ha, hblank]

/-- A key is left behind a gap. -/
theorem readKey_eq_some_iff {k : String} :
    readKey first s = .ok (some (k, r)) ↔
      ∃ gap key, s = gap ++ key ++ r ∧ IsGap first gap ∧ SpelledText k key := by
  have hcommaBlank : isBlank comma = false := by decide
  have hquoteBlank : isBlank quote = false := by decide
  constructor
  · intro h
    simp only [readKey] at h
    split at h
    · cases h
    rename_i b t hs
    obtain ⟨a, rfl, ha, hb⟩ := skipBlanks_eq_cons_iff.mp hs
    split at h
    · cases h
    split at h
    · rename_i hfirst
      split at h
      · rename_i hb
        split at h
        · cases h
        rename_i hread
        obtain rfl := Option.some.inj (Except.ok.inj h)
        obtain ⟨key, hs, hk⟩ := spelledText_iff.mpr ⟨t, rfl, hread⟩
        exact ⟨a, key, by rw [hb, hs, List.append_assoc], by simpa [hfirst, isGap_true] using ha, hk⟩
      · cases h
    rename_i hfirst
    rw [Bool.not_eq_true] at hfirst
    split at h
    · cases h
    rename_i hcomma
    rw [ne_eq, not_not] at hcomma
    split at h
    · cases h
    rename_i c t' ht
    obtain ⟨a', rfl, ha', hc⟩ := skipBlanks_eq_cons_iff.mp ht
    split at h
    · rename_i hc
      split at h
      · cases h
      rename_i hread
      obtain rfl := Option.some.inj (Except.ok.inj h)
      obtain ⟨key, hs, hk⟩ := spelledText_iff.mpr ⟨t', rfl, hread⟩
      exact ⟨a ++ comma :: a', key, by simp [hc, hs, hcomma],
        by rw [hfirst, isGap_false]; exact ⟨a, a', rfl, ha, ha'⟩, hk⟩
    split at h <;> cases h
  · rintro ⟨gap, key, rfl, hgap, hk⟩
    obtain ⟨t, ht, hread⟩ := spelledText_iff.mp ⟨key, rfl, hk⟩
    rw [List.append_assoc, ht]
    have hne : quote ≠ closeBrace := by decide
    cases first with
    | true =>
        simp [readKey, skipBlanks_append (isGap_true.mp hgap), hquoteBlank, hread, hne]
    | false =>
        obtain ⟨a, b, rfl, ha, hb⟩ := isGap_false.mp hgap
        have hcomma : comma ≠ closeBrace := by decide
        simp [readKey, skipBlanks_append ha, skipBlanks_append hb, hquoteBlank, hcommaBlank, hread,
          hcomma]

theorem readColon_eq_ok_iff : readColon s = .ok r ↔ ∃ a, s = a ++ colon :: r ∧ Blank a := by
  constructor
  · intro h
    unfold readColon at h
    split at h
    · cases h
    rename_i b t hs
    obtain ⟨a, rfl, ha, -⟩ := skipBlanks_eq_cons_iff.mp hs
    split at h
    · rename_i hb
      obtain rfl := Except.ok.inj h
      exact ⟨a, by rw [hb], ha⟩
    · cases h
  · rintro ⟨a, rfl, ha⟩
    have hblank : isBlank colon = false := by decide
    simp [readColon, skipBlanks_append ha, hblank]

theorem readKey_gap {k : String} {key : Bytes} (hgap : IsGap first gap) (hk : SpelledText k key)
    (r : Bytes) : readKey first (gap ++ (key ++ r)) = .ok (some (k, r)) :=
  readKey_eq_some_iff.mpr ⟨gap, key, (List.append_assoc ..).symm, hgap, hk⟩

theorem readColon_gap (ha : Blank a) (r : Bytes) : readColon (a ++ colon :: r) = .ok r :=
  readColon_eq_ok_iff.mpr ⟨a, rfl, ha⟩

/-! ### Values -/

@[simp] theorem leaveList_closeBracket (r : Bytes) : leaveList (closeBracket :: r) = r := by
  have hblank : isBlank closeBracket = false := by decide
  simp [leaveList, hblank]

@[simp] theorem leaveObject_closeBrace (r : Bytes) : leaveObject (closeBrace :: r) = r := by
  have hblank : isBlank closeBrace = false := by decide
  simp [leaveObject, hblank]

theorem null_eq : Write.null = 0x6E :: nullTail := by decide

theorem true_eq : Write.word "true" = 0x74 :: trueTail := by decide

theorem false_eq : Write.word "false" = 0x66 :: falseTail := by decide

/-- A literal is read as its value from the rest of its letters. -/
theorem readLiteral_map_eq_ok_iff {t u : Tree} :
    (readLiteral w s).map (fun r => (u, r)) = .ok (t, r) ↔ u = t ∧ s = w ++ r := by
  simp only [map_eq_ok_iff, readLiteral_eq_ok_iff, Prod.mk.injEq]
  constructor
  · rintro ⟨r', rfl, rfl, rfl⟩
    exact ⟨rfl, rfl⟩
  · rintro ⟨rfl, rfl⟩
    exact ⟨r, rfl, rfl, rfl⟩

mutual

/-- What is read as a value spells it, perhaps behind blanks. -/
theorem readTree_sound {t : Tree} : ∀ {fuel depth : Nat} {s r : Bytes},
    readTree fuel depth s = .ok (t, r) →
    ∃ a v, s = a ++ v ++ r ∧ Blank a ∧ t.SpelledBy v ∧ t.depth ≤ depth
  | 0, _, _, _, h => by cases h
  | fuel + 1, depth, s, r, h => by
      simp only [readTree] at h
      split at h
      · cases h
      rename_i b s' hs
      obtain ⟨a, rfl, ha, -⟩ := skipBlanks_eq_cons_iff.mp hs
      -- the first byte behind the blanks tells the kind of the value
      suffices ∃ v, b :: s' = v ++ r ∧ t.SpelledBy v ∧ t.depth ≤ depth by
        obtain ⟨v, hv, h⟩ := this
        exact ⟨a, v, by rw [hv, List.append_assoc], ha, h⟩
      split at h
      · rename_i hb
        obtain ⟨rfl, rfl⟩ := readLiteral_map_eq_ok_iff.mp h
        exact ⟨Write.null, by rw [hb, null_eq]; rfl, rfl, Nat.zero_le depth⟩
      split at h
      · rename_i hb
        obtain ⟨rfl, rfl⟩ := readLiteral_map_eq_ok_iff.mp h
        exact ⟨Write.word "true", by rw [hb, true_eq]; rfl, rfl, Nat.zero_le depth⟩
      split at h
      · rename_i hb
        obtain ⟨rfl, rfl⟩ := readLiteral_map_eq_ok_iff.mp h
        exact ⟨Write.word "false", by rw [hb, false_eq]; rfl, rfl, Nat.zero_le depth⟩
      split at h
      · obtain ⟨⟨n, r'⟩, hread, heq⟩ := map_eq_ok_iff.mp h
        obtain ⟨rfl, rfl⟩ := Prod.mk.inj heq
        obtain ⟨v, hv, -, hn⟩ := readNumber_sound hread
        exact ⟨v, hv, hn, Nat.zero_le depth⟩
      split at h
      · rename_i hb
        obtain ⟨⟨text, r'⟩, hread, heq⟩ := map_eq_ok_iff.mp h
        obtain ⟨rfl, rfl⟩ := Prod.mk.inj heq
        obtain ⟨v, hv, htext⟩ := spelledText_iff.mpr ⟨s', rfl, hread⟩
        exact ⟨v, by rw [hb, hv], htext, Nat.zero_le depth⟩
      split at h
      · rename_i hb
        split at h
        · cases h
        rename_i depth
        obtain ⟨⟨ts, r'⟩, hread, heq⟩ := map_eq_ok_iff.mp h
        obtain ⟨rfl, rfl⟩ := Prod.mk.inj heq
        obtain ⟨w, r', rfl, rfl, hts, hdepth⟩ := readItems_sound hread
        exact ⟨openBracket :: w ++ [closeBracket], by simp [hb], ⟨w, rfl, hts⟩,
          Nat.succ_le_succ hdepth⟩
      split at h
      · rename_i hb
        split at h
        · cases h
        rename_i depth
        obtain ⟨⟨ms, r'⟩, hread, heq⟩ := map_eq_ok_iff.mp h
        obtain ⟨rfl, rfl⟩ := Prod.mk.inj heq
        obtain ⟨w, r', rfl, rfl, hms, hdepth⟩ := readMembers_sound hread
        exact ⟨openBrace :: w ++ [closeBrace], by simp [hb], ⟨w, rfl, hms⟩,
          Nat.succ_le_succ hdepth⟩
      · cases h

theorem readItems_sound {ts : List Tree} : ∀ {fuel depth : Nat} {first : Bool} {s r : Bytes},
    readItems fuel depth first s = .ok (ts, r) →
    ∃ w r', s = w ++ r ∧ r = closeBracket :: r' ∧ SpelledItems first ts w ∧ depthOfItems ts ≤ depth
  | 0, _, _, _, _, h => by cases h
  | fuel + 1, depth, first, s, r, h => by
      simp only [readItems] at h
      split at h
      · cases h
      · rename_i hstart
        obtain ⟨rfl, rfl⟩ := Prod.mk.inj (Except.ok.inj h)
        obtain ⟨a, r', rfl, ha⟩ := readElementStart_eq_none_iff.mp hstart
        have hskip : skipBlanks (a ++ closeBracket :: r') = closeBracket :: r' := by
          rw [skipBlanks_append ha, skipBlanks_cons (by decide)]
        exact ⟨a, r', by rw [hskip], hskip, ha, Nat.zero_le depth⟩
      · rename_i s' hstart
        obtain ⟨gap, -, -, rfl, hgap, -⟩ := readElementStart_eq_some_iff.mp hstart
        split at h
        · cases h
        rename_i t rest hread
        obtain ⟨⟨ts, r'⟩, hmore, heq⟩ := map_eq_ok_iff.mp h
        obtain ⟨rfl, rfl⟩ := Prod.mk.inj heq
        obtain ⟨a, v, rfl, ha, ht, hdepth⟩ := readTree_sound hread
        obtain ⟨w, r', rfl, rfl, hts, hdepths⟩ := readItems_sound hmore
        exact ⟨gap ++ a ++ v ++ w, r', by simp, rfl, ⟨gap ++ a, v, w, rfl, hgap.append ha, ht, hts⟩,
          Nat.max_le.mpr ⟨hdepth, hdepths⟩⟩

theorem readMembers_sound {ms : List (String × Tree)} :
    ∀ {fuel depth : Nat} {first : Bool} {s r : Bytes},
    readMembers fuel depth first s = .ok (ms, r) →
    ∃ w r', s = w ++ r ∧ r = closeBrace :: r' ∧ SpelledMembers first ms w ∧
      depthOfMembers ms ≤ depth
  | 0, _, _, _, _, h => by cases h
  | fuel + 1, depth, first, s, r, h => by
      simp only [readMembers] at h
      split at h
      · cases h
      · rename_i hstart
        obtain ⟨rfl, rfl⟩ := Prod.mk.inj (Except.ok.inj h)
        obtain ⟨a, r', rfl, ha⟩ := readKey_eq_none_iff.mp hstart
        have hskip : skipBlanks (a ++ closeBrace :: r') = closeBrace :: r' := by
          rw [skipBlanks_append ha, skipBlanks_cons (by decide)]
        exact ⟨a, r', by rw [hskip], hskip, ha, Nat.zero_le depth⟩
      · rename_i k s' hstart
        obtain ⟨gap, key, rfl, hgap, hk⟩ := readKey_eq_some_iff.mp hstart
        split at h
        · cases h
        rename_i s'' hcolon
        obtain ⟨c, rfl, hc⟩ := readColon_eq_ok_iff.mp hcolon
        split at h
        · cases h
        rename_i t rest hread
        obtain ⟨⟨ms, r'⟩, hmore, heq⟩ := map_eq_ok_iff.mp h
        obtain ⟨rfl, rfl⟩ := Prod.mk.inj heq
        obtain ⟨a, v, rfl, ha, ht, hdepth⟩ := readTree_sound hread
        obtain ⟨w, r', rfl, rfl, hms, hdepths⟩ := readMembers_sound hmore
        exact ⟨gap ++ key ++ (c ++ colon :: a) ++ v ++ w, r', by simp, rfl,
          ⟨gap, key, c ++ colon :: a, v, w, rfl, hgap, hk, ⟨c, a, rfl, hc, ha⟩, ht, hms⟩,
          Nat.max_le.mpr ⟨hdepth, hdepths⟩⟩

end

/-! What stands behind a value ends it if it is a number. -/

theorem delimited_cons (r : Bytes) (hdigit : isDigit b = false) (hpoint : b ≠ point)
    (hmark : isExponentMark b = false) : Delimited (b :: r) := by
  intro c hc
  obtain rfl : b = c := by simpa using hc
  exact ⟨hdigit, hpoint, hmark⟩

theorem Blank.delimited (ha : Blank a) (hx : Delimited x) : Delimited (a ++ x) := by
  cases a with
  | nil => exact hx
  | cons b a =>
      have hb : isBlank b = true := ha b List.mem_cons_self
      simp only [isBlank, Bool.or_eq_true, beq_iff_eq] at hb
      rcases hb with ((rfl | rfl) | rfl) | rfl <;> exact delimited_cons _ rfl (by decide) rfl

theorem SpelledItems.delimited {ts : List Tree} (h : SpelledItems false ts w) (r : Bytes) :
    Delimited (w ++ closeBracket :: r) := by
  cases ts with
  | nil => exact Blank.delimited h (delimited_cons r rfl (by decide) rfl)
  | cons t ts =>
      obtain ⟨gap, v, rest, rfl, hgap, -⟩ := h
      obtain ⟨a, b, rfl, ha, -⟩ := isGap_false.mp hgap
      simp only [List.append_assoc, List.cons_append]
      exact ha.delimited (delimited_cons _ rfl (by decide) rfl)

theorem SpelledMembers.delimited {ms : List (String × Tree)} (h : SpelledMembers false ms w)
    (r : Bytes) : Delimited (w ++ closeBrace :: r) := by
  cases ms with
  | nil => exact Blank.delimited h (delimited_cons r rfl (by decide) rfl)
  | cons m ms =>
      obtain ⟨gap, key, mid, v, rest, rfl, hgap, -⟩ := h
      obtain ⟨a, b, rfl, ha, -⟩ := isGap_false.mp hgap
      simp only [List.append_assoc, List.cons_append]
      exact ha.delimited (delimited_cons _ rfl (by decide) rfl)

/-! Every value begins with a byte that tells its kind. -/

/-- A byte that begins a numeral begins nothing else. -/
theorem numeral_start (h : b = minus ∨ isDigit b = true) :
    isBlank b = false ∧ b ≠ closeBracket ∧ b ≠ 0x6E ∧ b ≠ 0x74 ∧ b ≠ 0x66 := by
  have hne {c : UInt8} (hminus : c ≠ minus) (hdigit : isDigit c = false) : b ≠ c := by
    rintro rfl
    rcases h with h | h
    · exact hminus h
    · simp [hdigit] at h
  refine ⟨?_, hne (by decide) (by decide), hne (by decide) (by decide),
    hne (by decide) (by decide), hne (by decide) (by decide)⟩
  simp only [isBlank, Bool.or_eq_false_iff, beq_eq_false_iff_ne]
  exact ⟨⟨⟨hne (by decide) (by decide), hne (by decide) (by decide)⟩,
    hne (by decide) (by decide)⟩, hne (by decide) (by decide)⟩

theorem Number.SpelledBy.start {n : Number} (h : n.SpelledBy v) :
    ∃ b v', v = b :: v' ∧ (b = minus ∨ isDigit b = true) := by
  have hwhole {ds : Bytes} (hds : IsWhole ds) (x : Bytes) :
      ∃ b v', ds ++ x = b :: v' ∧ (b = minus ∨ isDigit b = true) := by
    obtain ⟨⟨hne, hall⟩, -⟩ := hds
    cases ds with
    | nil => exact absurd rfl hne
    | cons b ds => exact ⟨b, ds ++ x, rfl, .inr (hall b List.mem_cons_self)⟩
  cases n with
  | nat n =>
      obtain ⟨-, rfl⟩ := h
      simpa using hwhole (isWhole_nat n) []
  | negative n =>
      obtain ⟨-, -, rfl⟩ := h
      exact ⟨minus, _, rfl, .inl rfl⟩
  | real sign d =>
      obtain ⟨⟨sign, whole, f, e, rfl, hsign, hds, -⟩, -⟩ := h
      rcases hsign with rfl | rfl
      · simpa using hwhole hds (f ++ e)
      · exact ⟨minus, _, rfl, .inl rfl⟩

theorem Tree.SpelledBy.start {t : Tree} (h : t.SpelledBy v) :
    ∃ b v', v = b :: v' ∧ isBlank b = false ∧ b ≠ closeBracket := by
  cases t with
  | null => exact ⟨_, _, Eq.trans h null_eq, rfl, by decide⟩
  | boolean b =>
      cases b with
      | true => exact ⟨_, _, Eq.trans h true_eq, rfl, by decide⟩
      | false => exact ⟨_, _, Eq.trans h false_eq, rfl, by decide⟩
  | number n =>
      obtain ⟨b, v', rfl, hb⟩ := Number.SpelledBy.start h
      exact ⟨b, v', rfl, (numeral_start hb).1, (numeral_start hb).2.1⟩
  | text s =>
      obtain ⟨w, rfl, -⟩ := h
      exact ⟨_, _, rfl, rfl, by decide⟩
  | array ts =>
      obtain ⟨w, rfl, -⟩ := h
      exact ⟨_, _, rfl, rfl, by decide⟩
  | object ms =>
      obtain ⟨w, rfl, -⟩ := h
      exact ⟨_, _, rfl, rfl, by decide⟩

theorem readElementStart_gap {t : Tree} (hgap : IsGap first gap) (ht : t.SpelledBy v) (x : Bytes) :
    readElementStart first (gap ++ (v ++ x)) = .ok (some (v ++ x)) := by
  obtain ⟨b, v', rfl, hblank, hclose⟩ := ht.start
  exact readElementStart_eq_some_iff.mpr ⟨gap, b, _, rfl, hgap, rfl, hblank, hclose⟩

theorem Tree.SpelledBy.length_pos {t : Tree} (ht : t.SpelledBy v) : 0 < v.length := by
  obtain ⟨b, v', rfl, -⟩ := ht.start
  simp

mutual

/-- Every spelling of a value is read as the value, in front of anything that does not go on
with it. -/
theorem readTree_complete {t : Tree} {a v x : Bytes} (ha : Blank a) (ht : t.SpelledBy v)
    (hx : Delimited x) : ∀ {fuel depth : Nat}, 2 * v.length ≤ fuel → t.depth ≤ depth →
    readTree fuel depth (a ++ v ++ x) = .ok (t, x)
  | 0, _, hfuel, _ => by
      obtain ⟨b, v', rfl, -⟩ := ht.start
      simp at hfuel
  | fuel + 1, depth, hfuel, hdepth => by
      rw [List.append_assoc]
      cases t with
      | null =>
          obtain rfl : v = 0x6E :: nullTail := Eq.trans ht null_eq
          have hread : readLiteral nullTail (nullTail ++ x) = .ok x := readLiteral_eq_ok_iff.mpr rfl
          have hblank : isBlank 0x6E = false := rfl
          simp [readTree, skipBlanks_append ha, hblank, hread, Except.map]
      | boolean b =>
          cases b with
          | true =>
              obtain rfl : v = 0x74 :: trueTail := Eq.trans ht true_eq
              have hread : readLiteral trueTail (trueTail ++ x) = .ok x :=
                readLiteral_eq_ok_iff.mpr rfl
              have hblank : isBlank 0x74 = false := rfl
              simp [readTree, skipBlanks_append ha, hblank, hread, Except.map]
          | false =>
              obtain rfl : v = 0x66 :: falseTail := Eq.trans ht false_eq
              have hread : readLiteral falseTail (falseTail ++ x) = .ok x :=
                readLiteral_eq_ok_iff.mpr rfl
              have hblank : isBlank 0x66 = false := rfl
              simp [readTree, skipBlanks_append ha, hblank, hread, Except.map]
      | number n =>
          obtain ⟨b, v', rfl, hb⟩ := Number.SpelledBy.start ht
          obtain ⟨hblank, -, hnull, htrue, hfalse⟩ := numeral_start hb
          have hread : readNumber (b :: (v' ++ x)) = .ok (n, x) := readNumber_complete ht hx
          simp [readTree, skipBlanks_append ha, hblank, hnull, htrue, hfalse, hb, hread, Except.map]
      | text s =>
          obtain ⟨t, heq, hread⟩ := (spelledText_iff (r := x)).mp ⟨v, rfl, ht⟩
          have hblank : isBlank quote = false := rfl
          have hkind : quote ≠ 0x6E ∧ quote ≠ 0x74 ∧ quote ≠ 0x66 ∧ quote ≠ minus ∧
            isDigit quote = false := by decide
          simp [readTree, skipBlanks_append ha, heq, hblank, hkind, hread, Except.map]
      | array ts =>
          -- the two brackets pay for the step down and the one along
          obtain ⟨w, rfl, hts⟩ := ht
          obtain ⟨depth, rfl⟩ := Nat.exists_eq_add_of_le' (Nat.le_trans (Nat.le_add_left 1 _) hdepth)
          have hread := readItems_complete x hts (show 2 * w.length < fuel by simp at hfuel; omega)
            (Nat.le_of_succ_le_succ hdepth)
          have hblank : isBlank openBracket = false := rfl
          have hkind : openBracket ≠ 0x6E ∧ openBracket ≠ 0x74 ∧ openBracket ≠ 0x66 ∧
            openBracket ≠ minus ∧ isDigit openBracket = false ∧ openBracket ≠ quote := by decide
          simp [readTree, skipBlanks_append ha, hblank, hkind, hread, Except.map]
      | object ms =>
          obtain ⟨w, rfl, hms⟩ := ht
          obtain ⟨depth, rfl⟩ := Nat.exists_eq_add_of_le' (Nat.le_trans (Nat.le_add_left 1 _) hdepth)
          have hread := readMembers_complete x hms
            (show 2 * w.length < fuel by simp at hfuel; omega) (Nat.le_of_succ_le_succ hdepth)
          have hblank : isBlank openBrace = false := rfl
          have hkind : openBrace ≠ 0x6E ∧ openBrace ≠ 0x74 ∧ openBrace ≠ 0x66 ∧
            openBrace ≠ minus ∧ isDigit openBrace = false ∧ openBrace ≠ quote ∧
            openBrace ≠ openBracket := by decide
          simp [readTree, skipBlanks_append ha, hblank, hkind, hread, Except.map]

theorem readItems_complete {ts : List Tree} {first : Bool} {w : Bytes} (x : Bytes)
    (hts : SpelledItems first ts w) : ∀ {fuel depth : Nat},
    2 * w.length < fuel → depthOfItems ts ≤ depth →
    readItems fuel depth first (w ++ closeBracket :: x) = .ok (ts, closeBracket :: x)
  | 0, _, hfuel, _ => (Nat.not_lt_zero _ hfuel).elim
  | fuel + 1, depth, hfuel, hdepth => by
      cases ts with
      | nil =>
          have hstart : readElementStart first (w ++ closeBracket :: x) = .ok none :=
            readElementStart_eq_none_iff.mpr ⟨w, x, rfl, hts⟩
          have hblank : isBlank closeBracket = false := rfl
          simp [readItems, hstart, skipBlanks_append hts, hblank]
      | cons t ts =>
          obtain ⟨gap, v, rest, rfl, hgap, ht, hts⟩ := hts
          have hlength := ht.length_pos
          obtain ⟨hdepth, hdepths⟩ := Nat.max_le.mp hdepth
          have hstart := readElementStart_gap hgap ht (rest ++ closeBracket :: x)
          have hread := readTree_complete blank_nil ht (hts.delimited x)
            (show 2 * v.length ≤ fuel by simp at hfuel; omega) hdepth
          have hmore := readItems_complete x hts
            (show 2 * rest.length < fuel by simp at hfuel; omega) hdepths
          rw [List.nil_append] at hread
          simp [readItems, hstart, hread, hmore, Except.map]

theorem readMembers_complete {ms : List (String × Tree)} {first : Bool} {w : Bytes} (x : Bytes)
    (hms : SpelledMembers first ms w) : ∀ {fuel depth : Nat},
    2 * w.length < fuel → depthOfMembers ms ≤ depth →
    readMembers fuel depth first (w ++ closeBrace :: x) = .ok (ms, closeBrace :: x)
  | 0, _, hfuel, _ => (Nat.not_lt_zero _ hfuel).elim
  | fuel + 1, depth, hfuel, hdepth => by
      cases ms with
      | nil =>
          have hstart : readKey first (w ++ closeBrace :: x) = .ok none :=
            readKey_eq_none_iff.mpr ⟨w, x, rfl, hms⟩
          have hblank : isBlank closeBrace = false := rfl
          simp [readMembers, hstart, skipBlanks_append hms, hblank]
      | cons m ms =>
          obtain ⟨gap, key, _, v, rest, rfl, hgap, hk, ⟨c, d, rfl, hc, hd⟩, ht, hms⟩ := hms
          have hlength := ht.length_pos
          obtain ⟨hdepth, hdepths⟩ := Nat.max_le.mp hdepth
          have hstart := readKey_gap hgap hk
            (c ++ colon :: (d ++ (v ++ (rest ++ closeBrace :: x))))
          have hcolon := readColon_gap hc (d ++ (v ++ (rest ++ closeBrace :: x)))
          have hread := readTree_complete hd ht (hms.delimited x)
            (show 2 * v.length ≤ fuel by simp at hfuel; omega) hdepth
          have hmore := readMembers_complete x hms
            (show 2 * rest.length < fuel by simp at hfuel; omega) hdepths
          rw [List.append_assoc] at hread
          simp [readMembers, hstart, hcolon, hread, hmore, Except.map]

end

/-! ### Texts -/

theorem readEnd_eq_ok_iff : readEnd s = .ok () ↔ Blank s := by
  rw [← skipBlanks_eq_nil_iff, readEnd]
  cases skipBlanks s <;> simp

/-- A value is read with nothing but blanks behind it exactly from the texts that spell it. -/
theorem exists_readTree_iff {t : Tree} (hfuel : 2 * s.length ≤ fuel) :
    (∃ r, readTree fuel depth s = .ok (t, r) ∧ Blank r) ↔ t.SpelledIn s ∧ t.depth ≤ depth := by
  constructor
  · rintro ⟨r, h, hr⟩
    obtain ⟨a, v, rfl, ha, ht, hdepth⟩ := readTree_sound h
    exact ⟨⟨a, v, r, rfl, ha, ht, hr⟩, hdepth⟩
  · rintro ⟨⟨a, v, r, rfl, ha, ht, hr⟩, hdepth⟩
    have hend : Delimited r := by simpa using hr.delimited delimited_nil
    exact ⟨r, readTree_complete ha ht hend (by simp at hfuel; omega) hdepth, hr⟩

theorem Tree.SpelledBy.spelledIn {t : Tree} (h : t.SpelledBy v) : t.SpelledIn v :=
  ⟨[], v, [], by simp, blank_nil, h, blank_nil⟩

/-- The grammar is unambiguous. -/
theorem Tree.SpelledIn.unique {t t' : Tree} (h : t.SpelledIn s) (h' : t'.SpelledIn s) : t = t' := by
  obtain ⟨r, hr, -⟩ := (exists_readTree_iff (Nat.le_refl _)).mpr
    ⟨h, Nat.le_max_left t.depth t'.depth⟩
  obtain ⟨r', hr', -⟩ := (exists_readTree_iff (Nat.le_refl _)).mpr
    ⟨h', Nat.le_max_right t.depth t'.depth⟩
  exact (Prod.mk.inj (Except.ok.inj (hr.symm.trans hr'))).1

end SourceDesk.Json
