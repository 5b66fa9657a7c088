import Mathlib.Data.List.TakeWhile
import SourceDesk.Proofs.Json.Spelling
import SourceDesk.Proofs.Text.Utf8

/-! The smallest parts of a text, read: each reader takes what the grammar calls a spelling off
the front and leaves the rest, and it takes nothing else. -/
namespace SourceDesk.Json

variable {s r a w m ds e bs gap : Bytes} {b : UInt8} {n : Nat} {first : Bool}

theorem map_eq_ok_iff {ε α β : Type} {x : Except ε α} {f : α → β} {y : β} :
    x.map f = .ok y ↔ ∃ z, x = .ok z ∧ f z = y := by
  cases x <;> simp [Except.map]

/-! ### Blanks -/

theorem Blank.append (ha : Blank a) (hw : Blank w) : Blank (a ++ w) := by
  intro b hb
  rcases List.mem_append.mp hb with hb | hb
  · exact ha b hb
  · exact hw b hb

theorem blank_nil : Blank [] := by simp [Blank]

@[simp] theorem skipBlanks_append (h : Blank a) (s : Bytes) :
    skipBlanks (a ++ s) = skipBlanks s :=
  List.dropWhile_append_of_pos h

@[simp] theorem skipBlanks_cons (h : isBlank b = false) (r : Bytes) :
    skipBlanks (b :: r) = b :: r :=
  List.dropWhile_cons_of_neg (by simp [h])

theorem skipBlanks_eq_nil_iff : skipBlanks s = [] ↔ Blank s := List.dropWhile_eq_nil_iff

/-- Skipping stops at the first byte that is no blank. -/
theorem skipBlanks_eq_cons_iff :
    skipBlanks s = b :: r ↔ ∃ a, s = a ++ b :: r ∧ Blank a ∧ isBlank b = false := by
  constructor
  · intro h
    refine ⟨s.takeWhile isBlank, ?_, fun c hc => List.mem_takeWhile_imp hc, ?_⟩
    · rw [← h, skipBlanks, List.takeWhile_append_dropWhile]
    · have hb := List.head?_dropWhile_not isBlank s
      rw [show s.dropWhile isBlank = b :: r from h] at hb
      simpa using hb
  · rintro ⟨a, rfl, ha, hb⟩
    rw [skipBlanks_append ha, skipBlanks_cons hb]

/-! ### Gaps -/

theorem isGap_true : IsGap true gap ↔ Blank gap := by simp [IsGap]

theorem isGap_false : IsGap false gap ↔ ∃ a b, gap = a ++ comma :: b ∧ Blank a ∧ Blank b := by
  simp [IsGap]

theorem IsGap.append (h : IsGap first gap) (ha : Blank a) : IsGap first (gap ++ a) := by
  cases first with
  | true => exact Blank.append h ha
  | false =>
      obtain ⟨c, d, rfl, hc, hd⟩ := h
      exact ⟨c, d ++ a, by simp, hc, hd.append ha⟩

/-! ### Literals -/

theorem readLiteral_eq_ok_iff : readLiteral w s = .ok r ↔ s = w ++ r := by
  induction w generalizing s with
  | nil => simp [readLiteral]
  | cons c w ih =>
      cases s with
      | nil => simp [readLiteral]
      | cons b s =>
          by_cases hb : b = c
          · simp [readLiteral, hb, ih]
          · simp [readLiteral, hb]

/-! ### Escapes -/

theorem readHex_eq_ok_iff : readHex s = .ok (n, r) ↔ ∃ ds, s = ds ++ r ∧ IsHex n ds := by
  constructor
  · intro h
    unfold readHex at h
    split at h
    · rename_i a b c d r'
      split at h
      · rename_i k hk
        obtain ⟨rfl, rfl⟩ := Prod.mk.inj (Except.ok.inj h)
        exact ⟨[a, b, c, d], rfl, a, b, c, d, rfl, hk⟩
      · cases h
    · cases h
  · rintro ⟨ds, rfl, a, b, c, d, rfl, hn⟩
    simp [readHex, hn]

theorem isLead_of_isTrail (h : isTrail n = true) : isLead n = false := by
  simp only [isTrail, isLead, Bool.and_eq_true, decide_eq_true_eq, Bool.and_eq_false_iff,
    decide_eq_false_iff_not] at h ⊢
  omega

theorem readCodePoint_sound (h : readCodePoint s = .ok (bs, r)) :
    ∃ e, s = e ++ r ∧ IsEscape (unicodeLetter :: e) bs := by
  unfold readCodePoint at h
  split at h
  · cases h
  rename_i n rest hn
  obtain ⟨ds, rfl, hds⟩ := readHex_eq_ok_iff.mp hn
  split at h
  · cases h
  rename_i htrail
  rw [Bool.not_eq_true] at htrail
  split at h
  · rename_i hlead
    -- a lead counts only with the escape of a trail right behind it
    split at h
    · cases h
    split at h
    · cases h
    rename_i hb
    split at h
    · cases h
    split at h
    · cases h
    rename_i hu
    split at h
    · cases h
    rename_i k rest hk
    obtain ⟨es, rfl, hes⟩ := readHex_eq_ok_iff.mp hk
    split at h
    · rename_i hk
      obtain ⟨rfl, rfl⟩ := Prod.mk.inj (Except.ok.inj h)
      rw [ne_eq, not_not] at hb hu
      subst hb hu
      exact ⟨ds ++ backslash :: unicodeLetter :: es, by simp, .pair hds hlead hes hk⟩
    · cases h
  · rename_i hlead
    obtain ⟨rfl, rfl⟩ := Prod.mk.inj (Except.ok.inj h)
    exact ⟨ds, rfl, .character hds (by simpa using hlead) htrail⟩

theorem readEscape_sound (h : readEscape s = .ok (bs, r)) : ∃ e, s = e ++ r ∧ IsEscape e bs := by
  unfold readEscape at h
  split at h
  · cases h
  rename_i l rest
  split at h
  · rename_i hl
    obtain ⟨e, rfl, he⟩ := readCodePoint_sound h
    subst hl
    exact ⟨_ :: e, rfl, he⟩
  · split at h
    · rename_i c hc
      obtain ⟨rfl, rfl⟩ := Prod.mk.inj (Except.ok.inj h)
      exact ⟨[l], rfl, .letter hc⟩
    · cases h

theorem readEscape_complete (h : IsEscape e bs) (r : Bytes) :
    readEscape (e ++ r) = .ok (bs, r) := by
  cases h with
  | @letter l b hl =>
      have hne : l ≠ unicodeLetter := by
        rintro rfl
        cases hl
      simp [readEscape, hne, hl]
  | @character n ds hds hlead htrail =>
      have hread : readHex (ds ++ r) = .ok (n, r) := readHex_eq_ok_iff.mpr ⟨ds, rfl, hds⟩
      simp [readEscape, readCodePoint, hread, hlead, htrail]
  | @pair n ds k es hds hlead hes htrail =>
      have hfirst : readHex (ds ++ backslash :: unicodeLetter :: (es ++ r)) =
          .ok (n, backslash :: unicodeLetter :: (es ++ r)) := readHex_eq_ok_iff.mpr ⟨ds, rfl, hds⟩
      have hsecond : readHex (es ++ r) = .ok (k, r) := readHex_eq_ok_iff.mpr ⟨es, rfl, hes⟩
      have hn : isTrail n = false := by
        by_contra hn
        rw [Bool.not_eq_false] at hn
        simp [isLead_of_isTrail hn] at hlead
      simp [readEscape, readCodePoint, hfirst, hsecond, hn, hlead, htrail]

/-! ### Strings -/

theorem readStringBytes_sound {fuel : Nat} (h : readStringBytes fuel s = .ok (m, r)) :
    ∃ w, s = w ++ quote :: r ∧ Means w m := by
  induction fuel generalizing s m with
  | zero => cases h
  | succ fuel ih =>
      cases s with
      | nil => cases h
      | cons b s =>
          simp only [readStringBytes] at h
          split at h
          · rename_i hb
            obtain ⟨rfl, rfl⟩ := Prod.mk.inj (Except.ok.inj h)
            exact ⟨[], by rw [hb]; rfl, .nil⟩
          rename_i hquote
          split at h
          · rename_i hb
            split at h
            · cases h
            rename_i bs rest hescape
            obtain ⟨e, rfl, he⟩ := readEscape_sound hescape
            split at h
            · cases h
            rename_i more rest' hmore
            obtain ⟨rfl, rfl⟩ := Prod.mk.inj (Except.ok.inj h)
            obtain ⟨w, rfl, hw⟩ := ih hmore
            exact ⟨backslash :: e ++ w, by simp [hb], .escape he hw⟩
          rename_i hbackslash
          split at h
          · cases h
          rename_i hcontrol
          split at h
          · cases h
          rename_i more rest hmore
          obtain ⟨rfl, rfl⟩ := Prod.mk.inj (Except.ok.inj h)
          obtain ⟨w, rfl, hw⟩ := ih hmore
          exact ⟨b :: w, rfl, .plain (UInt8.not_lt.mp hcontrol) hquote hbackslash hw⟩

theorem readStringBytes_complete (h : Means w m) {fuel : Nat} (hfuel : w.length < fuel)
    (r : Bytes) : readStringBytes fuel (w ++ quote :: r) = .ok (m, r) := by
  induction h generalizing fuel with
  | nil =>
      obtain ⟨fuel, rfl⟩ := Nat.exists_eq_add_of_lt hfuel
      simp [readStringBytes]
  | @plain b w m hcontrol hquote hbackslash _ ih =>
      obtain ⟨fuel, rfl⟩ := Nat.exists_eq_succ_of_ne_zero (Nat.ne_zero_of_lt hfuel)
      have hrest := ih (show w.length < fuel by simpa using hfuel)
      simp [readStringBytes, hquote, hbackslash, UInt8.not_lt.mpr hcontrol, hrest]
  | @escape e bs w m he _ ih =>
      obtain ⟨fuel, rfl⟩ := Nat.exists_eq_succ_of_ne_zero (Nat.ne_zero_of_lt hfuel)
      have hrest := ih (show w.length < fuel by simp at hfuel; omega)
      have hne : backslash ≠ quote := by decide
      simp [readStringBytes, hne, readEscape_complete he, hrest]

/-- A string is read behind its opening quote up to the closing one. -/
theorem readString_eq_ok_iff {t : String} :
    readString s = .ok (t, r) ↔ ∃ w, s = w ++ quote :: r ∧ Means w (Utf8.encode t) := by
  constructor
  · intro h
    unfold readString at h
    split at h
    · cases h
    rename_i bytes rest hbytes
    split at h
    · rename_i text htext
      obtain ⟨rfl, rfl⟩ := Prod.mk.inj (Except.ok.inj h)
      rw [Utf8.decode?_eq_some_iff.mp htext] at hbytes
      exact readStringBytes_sound hbytes
    · cases h
  · rintro ⟨w, rfl, hw⟩
    have hfuel : w.length < (w ++ quote :: r).length + 1 := by
      rw [List.length_append]
      omega
    have hbytes := readStringBytes_complete hw hfuel r
    simp only [readString, hbytes, Utf8.decode?_encode]

end SourceDesk.Json
