import SourceDesk.Json.Skip
import SourceDesk.Proofs.Json.Tree

/-! Values that are passed over. The walk over a value that nobody asked for comes out right
behind every spelling of it, whatever the value is and however deep it is nested. -/
namespace SourceDesk.Json

variable {a c m v w x r s f e ds key : Bytes} {b : UInt8} {n fuel : Nat} {frame : Frame}
  {frames : List Frame}

/-! ### Numbers -/

theorem Number.SpelledBy.isNumeral {n : Number} (h : n.SpelledBy v) : IsNumeral v := by
  cases n with
  | nat n =>
      obtain ⟨-, rfl⟩ := h
      exact ⟨[], _, [], [], by simp, .inl rfl, isWhole_nat n, .inl rfl, .inl rfl⟩
  | negative n =>
      obtain ⟨-, -, rfl⟩ := h
      exact ⟨[minus], _, [], [], by simp, .inr rfl, isWhole_nat n, .inl rfl, .inl rfl⟩
  | real sign d => exact h.1

/-- Digits are passed over behind the first one. -/
theorem Digits.exists_cons (h : Digits ds) : ∃ b r, ds = b :: r ∧ isDigit b = true ∧ AllDigits r := by
  obtain ⟨hne, hall⟩ := h
  cases ds with
  | nil => exact absurd rfl hne
  | cons b r => exact ⟨b, r, rfl, hall b List.mem_cons_self, fun d hd => hall d (by simp [hd])⟩

theorem ne_of_isDigit {b c : UInt8} (hb : isDigit b = true) (hc : isDigit c = false) : b ≠ c := by
  rintro rfl
  simp [hb] at hc

theorem skipExponent_complete {sign : Bytes} (hsign : sign = [] ∨ sign = [plus] ∨ sign = [minus])
    (hds : Digits ds) (hx : NoDigit x) : skipExponent (sign ++ ds ++ x) = .ok x := by
  obtain ⟨b, r, rfl, hb, hr⟩ := hds.exists_cons
  have hskip := skipDigits_append hr hx
  have hplus : b ≠ plus := ne_of_isDigit hb rfl
  have hminus : b ≠ minus := ne_of_isDigit hb rfl
  rcases hsign with rfl | rfl | rfl <;> simp [skipExponent, hplus, hminus, hb, hskip]

/-- An exponent is passed over if there is one. -/
theorem skipMark_complete (he : IsExponent e) (hx : Delimited x) :
    (match e ++ x with
      | b :: r => if isExponentMark b then skipExponent r else .ok (b :: r)
      | [] => .ok []) = .ok x := by
  rcases he with rfl | ⟨mark, sign, ds, rfl, hmark, hsign, hds⟩
  · cases x with
    | nil => rfl
    | cons b r => simp [(hx b rfl).2.2]
  · have hskip := skipExponent_complete hsign hds hx.noDigit
    simpa [hmark] using hskip

theorem skipAfterWhole_complete (hf : IsFraction f) (he : IsExponent e) (hx : Delimited x) :
    skipAfterWhole (f ++ (e ++ x)) = .ok x := by
  have hmark := skipMark_complete he hx
  rcases hf with rfl | ⟨ds, rfl, hds⟩
  · rw [List.nil_append]
    have hpoint := he.head hx
    cases hrest : e ++ x with
    | nil => simpa [hrest, skipAfterWhole] using hmark
    | cons b r =>
        rw [hrest] at hmark hpoint
        simpa [skipAfterWhole, (hpoint b rfl).2] using hmark
  · have hcount := countDigits_append hds.2 (he.noDigit hx)
    have hskip := skipDigits_append hds.2 (he.noDigit hx)
    have hpos : ds.length ≠ 0 := fun h => hds.1 (List.length_eq_zero_iff.mp h)
    simp only [skipAfterWhole, List.cons_append, if_true, hcount, hpos, if_false, hskip]
    exact hmark

theorem skipMagnitude_complete (hds : IsWhole ds) (hf : IsFraction f) (he : IsExponent e)
    (hx : Delimited x) : skipMagnitude (ds ++ (f ++ (e ++ x))) = .ok x := by
  have hrest := skipAfterWhole_complete hf he hx
  have hnoDigit : NoDigit (f ++ (e ++ x)) := by
    rw [← List.append_assoc]
    exact IsTail.noDigit ⟨f, e, rfl, hf, he⟩ hx
  obtain ⟨b, r, rfl, hb, hr⟩ := hds.1.exists_cons
  by_cases hzero : b = zeroDigit
  · obtain ⟨rfl, rfl⟩ := List.cons.inj (hds.2 (congrArg some hzero))
    simp [skipMagnitude, hb, countDigits_eq_zero hnoDigit, hrest]
  · simp [skipMagnitude, hb, hzero, skipDigits_append hr hnoDigit, hrest]

theorem skipNumber_complete (hv : IsNumeral v) (hx : Delimited x) : skipNumber (v ++ x) = .ok x := by
  obtain ⟨sign, ds, f, e, rfl, hsign, hds, hf, he⟩ := hv
  have hrest := skipMagnitude_complete hds hf he hx
  rcases hsign with rfl | rfl
  · obtain ⟨b, r, rfl, hb, -⟩ := hds.1.exists_cons
    have hminus : b ≠ minus := ne_of_isDigit hb rfl
    simpa [skipNumber, hminus] using hrest
  · simpa [skipNumber] using hrest

/-! ### Strings -/

theorem skipString_hex (hds : IsHex n ds) (s : Bytes) :
    skipString (fuel + 1) (backslash :: unicodeLetter :: (ds ++ s)) = skipString fuel s := by
  have hread : readHex (ds ++ s) = .ok (n, s) := readHex_eq_ok_iff.mpr ⟨ds, rfl, hds⟩
  have hne : backslash ≠ quote := by decide
  simp [skipString, hne, hread]

theorem skipString_complete (h : Means w m) (hfuel : w.length < fuel) (r : Bytes) :
    skipString fuel (w ++ quote :: r) = .ok r := by
  induction h generalizing fuel with
  | nil =>
      obtain ⟨fuel, rfl⟩ := Nat.exists_eq_add_of_lt hfuel
      simp [skipString]
  | @plain b w m hcontrol hquote hbackslash _ ih =>
      obtain ⟨fuel, rfl⟩ := Nat.exists_eq_succ_of_ne_zero (Nat.ne_zero_of_lt hfuel)
      have hrest := ih (show w.length < fuel by simpa using hfuel)
      simp [skipString, hquote, hbackslash, UInt8.not_lt.mpr hcontrol, hrest]
  | @escape e bs w m he _ ih =>
      obtain ⟨fuel, rfl⟩ := Nat.exists_eq_succ_of_ne_zero (Nat.ne_zero_of_lt hfuel)
      cases he with
      | @letter l b hl =>
          have hrest := ih (show w.length < fuel by simp at hfuel; omega)
          have hne : backslash ≠ quote := by decide
          have hl' : l ≠ unicodeLetter := by
            rintro rfl
            cases hl
          simp [skipString, hne, hl', hl, hrest]
      | @character n ds hds =>
          have hrest := ih (show w.length < fuel by simp at hfuel; omega)
          simp [skipString_hex hds, hrest]
      | @pair n ds k es hds _ hes =>
          -- the two halves are two escapes here
          obtain ⟨fuel, rfl⟩ : ∃ d, fuel = d + 1 := ⟨fuel - 1, by simp at hfuel; omega⟩
          have hrest := ih (show w.length < fuel by simp at hfuel; omega)
          simp [skipString_hex hds, skipString_hex hes, hrest]

/-- What stands in front of a closing byte is shorter than the rest of the text. -/
theorem length_lt_fuel (w : Bytes) (b : UInt8) (x : Bytes) : w.length < (w ++ b :: x).length + 1 := by
  rw [List.length_append, List.length_cons]
  omega

theorem skipString_spelled {k : String} (hk : SpelledText k key) (r : Bytes) :
    ∃ t, key ++ r = quote :: t ∧ skipString (t.length + 1) t = .ok r := by
  obtain ⟨w, rfl, hw⟩ := hk
  exact ⟨w ++ quote :: r, by simp, skipString_complete hw (length_lt_fuel w quote r) r⟩

theorem skipKey_complete {k : String} (ha : Blank a) (hk : SpelledText k key) (hc : Blank c)
    (s : Bytes) : skipKey (a ++ (key ++ (c ++ colon :: s))) = .ok s := by
  obtain ⟨t, ht, hskip⟩ := skipString_spelled hk (c ++ colon :: s)
  have hquote : isBlank quote = false := rfl
  have hcolon : isBlank colon = false := rfl
  simp [skipKey, skipBlanks_append ha, ht, hquote, hskip, skipBlanks_append hc, hcolon]

/-! ### Steps of the walk -/

theorem skipFrom_list (ha : Blank a) (s : Bytes) :
    skipFrom (fuel + 1) .value frames (a ++ openBracket :: s) =
      skipFrom fuel .opened (.list :: frames) s := by
  have hblank : isBlank openBracket = false := rfl
  simp [skipFrom, skipBlanks_append ha, hblank]

theorem skipFrom_object (ha : Blank a) (s : Bytes) :
    skipFrom (fuel + 1) .value frames (a ++ openBrace :: s) =
      skipFrom fuel .opened (.object :: frames) s := by
  have hblank : isBlank openBrace = false := rfl
  have hne : openBrace ≠ openBracket := by decide
  simp [skipFrom, skipBlanks_append ha, hblank, hne]

theorem isBlank_close (frame : Frame) : isBlank frame.close = false := by cases frame <;> rfl

theorem skipFrom_empty (frame : Frame) (ha : Blank a) (x : Bytes) :
    skipFrom (fuel + 1) .opened (frame :: frames) (a ++ frame.close :: x) =
      skipFrom fuel .after frames x := by
  simp [skipFrom, skipBlanks_append ha, isBlank_close]

theorem skipFrom_first (frame : Frame) (ha : Blank a) (hblank : isBlank b = false)
    (hclose : b ≠ frame.close) (s : Bytes) : skipFrom (fuel + 1) .opened (frame :: frames) (a ++ b :: s) =
      skipFrom fuel .member (frame :: frames) (b :: s) := by
  simp [skipFrom, skipBlanks_append ha, hblank, hclose]

theorem skipFrom_firstItem {t : Tree} (ha : Blank a) (ht : t.SpelledBy v) (s : Bytes) :
    skipFrom (fuel + 1) .opened (.list :: frames) (a ++ (v ++ s)) =
      skipFrom fuel .member (.list :: frames) (v ++ s) := by
  obtain ⟨b, v', rfl, hblank, hclose⟩ := ht.start
  exact skipFrom_first .list ha hblank hclose _

theorem skipFrom_firstKey {k : String} (ha : Blank a) (hk : SpelledText k key) (s : Bytes) :
    skipFrom (fuel + 1) .opened (.object :: frames) (a ++ (key ++ s)) =
      skipFrom fuel .member (.object :: frames) (key ++ s) := by
  obtain ⟨w, rfl, -⟩ := hk
  exact skipFrom_first .object ha rfl (by decide) _

theorem skipFrom_next (ha : Blank a) (s : Bytes) :
    skipFrom (fuel + 1) .after (frame :: frames) (a ++ comma :: s) =
      skipFrom fuel .member (frame :: frames) s := by
  have hblank : isBlank comma = false := rfl
  simp [skipFrom, skipBlanks_append ha, hblank]

theorem skipFrom_close (frame : Frame) (ha : Blank a) (x : Bytes) :
    skipFrom (fuel + 1) .after (frame :: frames) (a ++ frame.close :: x) =
      skipFrom fuel .after frames x := by
  have hne : frame.close ≠ comma := by cases frame <;> decide
  simp [skipFrom, skipBlanks_append ha, isBlank_close, hne]

theorem skipFrom_item (s : Bytes) : skipFrom (fuel + 1) .member (.list :: frames) s =
    skipFrom fuel .value (.list :: frames) s := by
  simp [skipFrom]

theorem skipFrom_key {k : String} (ha : Blank a) (hk : SpelledText k key) (hc : Blank c)
    (s : Bytes) :
    skipFrom (fuel + 1) .member (.object :: frames) (a ++ (key ++ (c ++ colon :: s))) =
      skipFrom fuel .value (.object :: frames) s := by
  simp [skipFrom, skipKey_complete ha hk hc]

/-! ### Values -/

theorem skipScalar_complete {t : Tree} (ht : t.SpelledBy v) (hx : Delimited x)
    (hitems : ∀ ts, t ≠ .array ts) (hmembers : ∀ ms, t ≠ .object ms) :
    ∃ b v', v = b :: v' ∧ isBlank b = false ∧ b ≠ openBracket ∧ b ≠ openBrace ∧
      skipScalar (v ++ x) = .ok x := by
  cases t with
  | null =>
      obtain rfl : v = 0x6E :: nullTail := Eq.trans ht null_eq
      exact ⟨_, _, rfl, rfl, by decide, by decide, readLiteral_eq_ok_iff.mpr rfl⟩
  | boolean b =>
      cases b with
      | true =>
          obtain rfl : v = 0x74 :: trueTail := Eq.trans ht true_eq
          exact ⟨_, _, rfl, rfl, by decide, by decide, readLiteral_eq_ok_iff.mpr rfl⟩
      | false =>
          obtain rfl : v = 0x66 :: falseTail := Eq.trans ht false_eq
          exact ⟨_, _, rfl, rfl, by decide, by decide, readLiteral_eq_ok_iff.mpr rfl⟩
  | number n =>
      have hread := skipNumber_complete (Number.SpelledBy.isNumeral ht) hx
      obtain ⟨b, v', rfl, hb⟩ := Number.SpelledBy.start ht
      obtain ⟨hblank, -, hnull, htrue, hfalse⟩ := numeral_start hb
      refine ⟨b, v', rfl, hblank, ?_, ?_, by simpa [skipScalar, hnull, htrue, hfalse, hb] using hread⟩
      · rintro rfl
        revert hb
        decide
      · rintro rfl
        revert hb
        decide
  | text s =>
      obtain ⟨w, rfl, hw⟩ := ht
      have hread := skipString_complete hw (length_lt_fuel w quote x) x
      refine ⟨quote, _, rfl, rfl, by decide, by decide, ?_⟩
      have hkind : quote ≠ 0x6E ∧ quote ≠ 0x74 ∧ quote ≠ 0x66 ∧ quote ≠ minus ∧
        isDigit quote = false := by decide
      simpa [skipScalar, hkind] using hread
  | array ts => exact absurd rfl (hitems ts)
  | object ms => exact absurd rfl (hmembers ms)

theorem skipFrom_scalar {t : Tree} (ha : Blank a) (ht : t.SpelledBy v) (hx : Delimited x)
    (hitems : ∀ ts, t ≠ .array ts) (hmembers : ∀ ms, t ≠ .object ms) :
    ∃ n ≤ 4 * v.length, ∀ fuel frames,
      skipFrom (fuel + n) .value frames (a ++ (v ++ x)) = skipFrom fuel .after frames x := by
  obtain ⟨b, v', rfl, hblank, hbracket, hbrace, hskip⟩ := skipScalar_complete ht hx hitems hmembers
  refine ⟨1, by simp; omega, fun fuel frames => ?_⟩
  simp only [skipFrom, skipBlanks_append ha, List.cons_append, skipBlanks_cons hblank, hbracket,
    hbrace, if_false]
  rw [← List.cons_append, hskip]

mutual

/-- A value is passed over, in four steps a byte at most. -/
theorem skipFrom_value : ∀ (t : Tree) {a v x : Bytes}, Blank a → t.SpelledBy v → Delimited x →
    ∃ n ≤ 4 * v.length, ∀ fuel frames,
      skipFrom (fuel + n) .value frames (a ++ (v ++ x)) = skipFrom fuel .after frames x
  | .array [], a, _, x, ha, ⟨w, rfl, hw⟩, _ => by
      refine ⟨2, by simp; omega, fun fuel frames => ?_⟩
      simp only [List.cons_append, List.append_assoc]
      rw [skipFrom_list ha]
      exact skipFrom_empty .list hw x
  | .array (t :: ts), a, _, x, ha, ⟨w, rfl, hts⟩, _ => by
      obtain ⟨gap, v, rest, rfl, hgap, ht, hts⟩ := hts
      obtain ⟨n, hn, hvalue⟩ := skipFrom_value t blank_nil ht (hts.delimited x)
      obtain ⟨k, hk, hitems⟩ := skipFrom_items ts hts x
      refine ⟨k + n + 1 + 1 + 1, by simp; omega, fun fuel frames => ?_⟩
      simp only [List.cons_append, List.append_assoc, ← Nat.add_assoc]
      rw [skipFrom_list ha, skipFrom_firstItem (isGap_true.mp hgap) ht, skipFrom_item]
      exact (hvalue _ _).trans (hitems _ _)
  | .object [], a, _, x, ha, ⟨w, rfl, hw⟩, _ => by
      refine ⟨2, by simp; omega, fun fuel frames => ?_⟩
      simp only [List.cons_append, List.append_assoc]
      rw [skipFrom_object ha]
      exact skipFrom_empty .object hw x
  | .object ((k, t) :: ms), a, _, x, ha, ⟨w, rfl, hms⟩, _ => by
      obtain ⟨gap, key, _, v, rest, rfl, hgap, hk, ⟨c, d, rfl, hc, hd⟩, ht, hms⟩ := hms
      obtain ⟨n, hn, hvalue⟩ := skipFrom_value t hd ht (hms.delimited x)
      obtain ⟨j, hj, hmembers⟩ := skipFrom_members ms hms x
      refine ⟨j + n + 1 + 1 + 1, by simp; omega, fun fuel frames => ?_⟩
      simp only [List.cons_append, List.append_assoc, ← Nat.add_assoc]
      rw [skipFrom_object ha, skipFrom_firstKey (isGap_true.mp hgap) hk]
      exact (skipFrom_key blank_nil hk hc _).trans ((hvalue _ _).trans (hmembers _ _))
  | .null, _, _, _, ha, ht, hx => skipFrom_scalar ha ht hx (by simp) (by simp)
  | .boolean _, _, _, _, ha, ht, hx => skipFrom_scalar ha ht hx (by simp) (by simp)
  | .number _, _, _, _, ha, ht, hx => skipFrom_scalar ha ht hx (by simp) (by simp)
  | .text _, _, _, _, ha, ht, hx => skipFrom_scalar ha ht hx (by simp) (by simp)

theorem skipFrom_items : ∀ (ts : List Tree) {w : Bytes}, SpelledItems false ts w → ∀ x,
    ∃ n ≤ 4 * w.length + 1, ∀ fuel frames,
      skipFrom (fuel + n) .after (.list :: frames) (w ++ closeBracket :: x) =
        skipFrom fuel .after frames x
  | [], w, hw, x =>
      ⟨1, Nat.le_add_left 1 _, fun _ _ => skipFrom_close .list hw x⟩
  | t :: ts, _, ⟨gap, v, rest, hw, hgap, ht, hts⟩, x => by
      obtain ⟨c, d, rfl, hc, hd⟩ := isGap_false.mp hgap
      obtain ⟨n, hn, hvalue⟩ := skipFrom_value t hd ht (hts.delimited x)
      obtain ⟨k, hk, hitems⟩ := skipFrom_items ts hts x
      subst hw
      refine ⟨k + n + 1 + 1, by simp; omega, fun fuel frames => ?_⟩
      simp only [List.cons_append, List.append_assoc, ← Nat.add_assoc]
      rw [skipFrom_next hc, skipFrom_item, hvalue, hitems]

theorem skipFrom_members : ∀ (ms : List (String × Tree)) {w : Bytes}, SpelledMembers false ms w →
    ∀ x, ∃ n ≤ 4 * w.length + 1, ∀ fuel frames,
      skipFrom (fuel + n) .after (.object :: frames) (w ++ closeBrace :: x) =
        skipFrom fuel .after frames x
  | [], w, hw, x =>
      ⟨1, Nat.le_add_left 1 _, fun _ _ => skipFrom_close .object hw x⟩
  | (k, t) :: ms, _, ⟨gap, key, mid, v, rest, hw, hgap, hk, ⟨c, d, hmid, hc, hd⟩, ht, hms⟩, x => by
      obtain ⟨c', d', rfl, hc', hd'⟩ := isGap_false.mp hgap
      obtain ⟨n, hn, hvalue⟩ := skipFrom_value t hd ht (hms.delimited x)
      obtain ⟨j, hj, hmembers⟩ := skipFrom_members ms hms x
      subst hw hmid
      refine ⟨j + n + 1 + 1, by simp; omega, fun fuel frames => ?_⟩
      simp only [List.cons_append, List.append_assoc, ← Nat.add_assoc]
      rw [skipFrom_next hc', skipFrom_key hd' hk hc, hvalue, hmembers]

end

theorem skipValue_complete {t : Tree} (ha : Blank a) (ht : t.SpelledBy v) (hx : Delimited x) :
    skipValue (a ++ (v ++ x)) = .ok x := by
  obtain ⟨n, hn, hvalue⟩ := skipFrom_value t ha ht hx
  obtain ⟨fuel, hfuel⟩ : ∃ fuel, 4 * (a ++ (v ++ x)).length + 4 = fuel + 1 + n :=
    ⟨4 * (a ++ (v ++ x)).length + 3 - n, by simp; omega⟩
  rw [skipValue, hfuel, hvalue, skipFrom]

end SourceDesk.Json
