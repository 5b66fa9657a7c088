import Mathlib.Data.List.Induction
import Mathlib.Data.List.TakeWhile
import SourceDesk.Proofs.Json.Spelling

/-! Numerals, read. A reader takes the same bytes for the same number whatever stands behind
them, as long as that cannot go on with the numeral; and an integer that fits in 64 bits is
read from its decimal digits alone. -/
namespace SourceDesk.Json

variable {s r x ds : Bytes} {b : UInt8} {n sig : Nat} {negative : Bool} {before : Int}

/-- Digits and nothing else, perhaps none. -/
abbrev AllDigits (ds : Bytes) : Prop := ∀ b ∈ ds, isDigit b = true

/-- A text that does not begin with a digit. -/
def NoDigit (s : Bytes) : Prop := ∀ b ∈ s.head?, isDigit b = false

/-- A text that does not begin with anything that goes on with a numeral. -/
def Delimited (s : Bytes) : Prop :=
  ∀ b ∈ s.head?, isDigit b = false ∧ b ≠ point ∧ isExponentMark b = false

theorem Delimited.noDigit (h : Delimited x) : NoDigit x := fun b hb => (h b hb).1

theorem delimited_nil : Delimited [] := by simp [Delimited]

/-! ### Runs of digits -/

theorem isDigit_of_noDigit (h : NoDigit (b :: r)) : isDigit b = false := h b rfl

/-- A text is its leading digits and a rest that begins with none. -/
theorem exists_run (s : Bytes) : ∃ ds x, s = ds ++ x ∧ AllDigits ds ∧ NoDigit x := by
  refine ⟨s.takeWhile isDigit, s.dropWhile isDigit, List.takeWhile_append_dropWhile.symm,
    fun b hb => List.mem_takeWhile_imp hb, fun b hb => ?_⟩
  have h := List.head?_dropWhile_not isDigit s
  rw [Option.mem_def] at hb
  simpa [hb] using h

theorem skipDigits_append (hds : AllDigits ds) (hx : NoDigit x) : skipDigits (ds ++ x) = x := by
  rw [skipDigits, List.dropWhile_append_of_pos hds]
  cases x with
  | nil => rfl
  | cons b r => simp [isDigit_of_noDigit hx]

theorem countDigits_append (hds : AllDigits ds) (hx : NoDigit x) :
    countDigits (ds ++ x) = ds.length := by
  rw [countDigits, List.takeWhile_append_of_pos hds]
  cases x with
  | nil => simp
  | cons b r => simp [isDigit_of_noDigit hx]

theorem countDigits_eq_zero (hx : NoDigit x) : countDigits x = 0 :=
  countDigits_append (by simp [AllDigits] : AllDigits []) hx

/-- A significand is taken out of a run of digits with no look at what is behind the run. -/
theorem takeDigits_append (hx : NoDigit x) (ds : Bytes) (sig : Nat) :
    takeDigits sig (ds ++ x) =
      ((takeDigits sig ds).1, (takeDigits sig ds).2.1, (takeDigits sig ds).2.2 ++ x) := by
  induction ds generalizing sig with
  | nil =>
      cases x with
      | nil => rfl
      | cons b r => simp [takeDigits, isDigit_of_noDigit hx]
  | cons b ds ih =>
      simp only [List.cons_append, takeDigits, ih]
      split <;> rfl

theorem allDigits_takeDigits (hds : AllDigits ds) (sig : Nat) :
    AllDigits (takeDigits sig ds).2.2 := by
  induction ds generalizing sig with
  | nil => exact hds
  | cons b ds ih =>
      simp only [takeDigits]
      split
      · exact ih (fun c hc => hds c (List.mem_cons_of_mem b hc)) _
      · exact hds

theorem readExponentDigits_append (hx : NoDigit x) (ds : Bytes) (e : Nat) :
    readExponentDigits e (ds ++ x) =
      ((readExponentDigits e ds).1, (readExponentDigits e ds).2 ++ x) := by
  induction ds generalizing e with
  | nil =>
      cases x with
      | nil => rfl
      | cons b r => simp [readExponentDigits, isDigit_of_noDigit hx]
  | cons b ds ih =>
      simp only [List.cons_append, readExponentDigits, ih]
      split
      · split <;> rfl
      · rfl

theorem readExponentDigits_rest (hds : AllDigits ds) (e : Nat) :
    AllDigits (readExponentDigits e ds).2 ∧
      ((readExponentDigits e ds).1 ≠ none → (readExponentDigits e ds).2 = []) := by
  induction ds generalizing e with
  | nil => exact ⟨hds, fun _ => rfl⟩
  | cons b ds ih =>
      have hrest : AllDigits ds := fun c hc => hds c (List.mem_cons_of_mem b hc)
      simp only [readExponentDigits, hds b List.mem_cons_self, if_true]
      split
      · exact ⟨hrest, fun h => (h rfl).elim⟩
      · exact ih hrest _

/-! ### The parts of a numeral -/

/-- A fraction and an exponent, either of them perhaps missing. -/
def IsTail (bs : Bytes) : Prop := ∃ f e, bs = f ++ e ∧ IsFraction f ∧ IsExponent e

/-- A floating point number. -/
def Number.IsReal : Number → Prop
  | .real _ _ => True
  | _ => False

/-- What a reader takes off a text is a part of a numeral that fits the number, and it takes as
much, for the same number, in front of anything that does not go on with the numeral. -/
def Takes (p : Bytes → Reading Number) (part : Bytes → Number → Prop) : Prop :=
  ∀ ⦃s n r⦄, p s = .ok (n, r) →
    ∃ v, s = v ++ r ∧ part v n ∧ ∀ x, Delimited x → p (v ++ x) = .ok (n, x)

/-- What begins with an exponent, or goes on with nothing, begins with no digit and no point. -/
theorem IsExponent.head {e : Bytes} (he : IsExponent e) (hx : Delimited x) :
    ∀ b ∈ (e ++ x).head?, isDigit b = false ∧ b ≠ point := by
  intro b hb
  rcases he with rfl | ⟨mark, sign, ds, rfl, hmark, -⟩
  · exact ⟨(hx b hb).1, (hx b hb).2.1⟩
  · obtain rfl : mark = b := by simpa using hb
    rw [isExponentMark, Bool.or_eq_true, beq_iff_eq, beq_iff_eq] at hmark
    rcases hmark with rfl | rfl <;> decide

theorem IsExponent.noDigit {e : Bytes} (he : IsExponent e) (hx : Delimited x) :
    NoDigit (e ++ x) :=
  fun b hb => (he.head hx b hb).1

theorem IsTail.noDigit {v : Bytes} (hv : IsTail v) (hx : Delimited x) : NoDigit (v ++ x) := by
  obtain ⟨f, e, rfl, rfl | ⟨ds, rfl, -⟩, he⟩ := hv
  · exact he.noDigit hx
  · intro b hb
    obtain rfl : point = b := by simpa using hb
    rfl

theorem IsExponent.isTail {e : Bytes} (he : IsExponent e) : IsTail e := ⟨[], e, rfl, .inl rfl, he⟩

theorem isTail_nil : IsTail [] := IsExponent.isTail (.inl rfl)

theorem takes_finishReal {exponent : Int} :
    Takes (finishReal negative sig exponent) fun v n => v = [] ∧ n.IsReal := by
  intro s n r h
  unfold finishReal at h
  split at h
  · rename_i d hd
    obtain ⟨rfl, rfl⟩ := Prod.mk.inj (Except.ok.inj h)
    exact ⟨[], rfl, ⟨rfl, trivial⟩, fun x _ => by simp [finishReal, hd]⟩
  · cases h

/-- An exponent is read off its digits: one that is too large makes a zero or no number. -/
theorem readExponent_digits {sign : Bytes} (hsign : sign = [] ∨ sign = [plus] ∨ sign = [minus])
    (hb : isDigit b = true) (hds : AllDigits ds) (hx : NoDigit x) :
    readExponent negative sig before (sign ++ b :: ds ++ x) =
      match readExponentDigits (digitValue b) ds with
      | (none, rest) =>
        if sig ≠ 0 && !decide (sign = [minus]) then .error (.here (rest ++ x) .numberOutOfRange)
        else .ok (.real negative Double.zero, x)
      | (some e, _) =>
        finishReal negative sig (if sign = [minus] then before - e else before + e) x := by
  have hplus : b ≠ plus := by
    rintro rfl
    cases hb
  have hminus : b ≠ minus := by
    rintro rfl
    cases hb
  obtain ⟨hdigits, hnil⟩ := readExponentDigits_rest hds (digitValue b)
  have hskip := skipDigits_append hdigits hx
  have hrun := readExponentDigits_append hx ds (digitValue b)
  have hne : minus ≠ plus := by decide
  -- with each sign the digits are read alike; it says which way the exponent counts
  rcases hsign with rfl | rfl | rfl
  all_goals
    rcases hrest : readExponentDigits (digitValue b) ds with ⟨_ | e, rest⟩
    · rw [hrest] at hrun hskip
      simp [readExponent, hb, hplus, hminus, hne, hne.symm, hrun, hskip]
    · rw [hrest] at hrun hnil
      obtain rfl : rest = [] := hnil (by simp)
      simp [readExponent, hb, hplus, hminus, hne, hne.symm, hrun]

/-- What is read as an exponent has a sign perhaps and a digit. -/
theorem readExponent_shape {n : Number} (h : readExponent negative sig before s = .ok (n, r)) :
    ∃ sign c r', s = sign ++ c :: r' ∧ (sign = [] ∨ sign = [plus] ∨ sign = [minus]) ∧
      isDigit c = true := by
  unfold readExponent at h
  split at h
  rename_i down t ht
  split at h
  · cases h
  rename_i c r'
  split at h
  · cases h
  rename_i hc
  rw [Bool.not_eq_true', Bool.not_eq_false] at hc
  split at ht
  · split at ht
    · rename_i hb
      obtain ⟨-, rfl⟩ := Prod.mk.inj ht
      exact ⟨[plus], c, r', by simp [hb], by simp, hc⟩
    split at ht
    · rename_i hb
      obtain ⟨-, rfl⟩ := Prod.mk.inj ht
      exact ⟨[minus], c, r', by simp [hb], by simp, hc⟩
    · obtain ⟨-, ht⟩ := Prod.mk.inj ht
      exact ⟨[], c, r', ht, by simp, hc⟩
  · cases ht

theorem takes_readExponent {mark : UInt8} (hmark : isExponentMark mark = true) :
    Takes (readExponent negative sig before) fun v n => IsExponent (mark :: v) ∧ n.IsReal := by
  intro s n r h
  obtain ⟨sign, c, r', rfl, hsign, hc⟩ := readExponent_shape h
  obtain ⟨ds, t, rfl, hds, ht⟩ := exists_run r'
  have hspelled : IsExponent (mark :: (sign ++ c :: ds)) :=
    .inr ⟨mark, sign, c :: ds, rfl, hmark, hsign, by simp, by simpa [hc] using hds⟩
  rw [← List.cons_append, ← List.append_assoc, readExponent_digits hsign hc hds ht] at h
  split at h
  · split at h
    · cases h
    · rename_i e rest hrest hdown
      obtain ⟨rfl, rfl⟩ := Prod.mk.inj (Except.ok.inj h)
      refine ⟨sign ++ c :: ds, by simp, ⟨hspelled, trivial⟩, fun x hx => ?_⟩
      rw [readExponent_digits hsign hc hds hx.noDigit, hrest]
      exact if_neg hdown
  · rename_i e rest hrest
    obtain ⟨_, rfl, ⟨rfl, hreal⟩, hread⟩ := takes_finishReal h
    refine ⟨sign ++ c :: ds, by simp, ⟨hspelled, hreal⟩, fun x hx => ?_⟩
    rw [readExponent_digits hsign hc hds hx.noDigit, hrest]
    exact hread x hx

theorem takes_readScale :
    Takes (readScale negative sig before) fun v n => IsExponent v ∧ n.IsReal := by
  intro s n r h
  have hreal {t : Bytes} (ht : finishReal negative sig before t = .ok (n, r)) :
      ∃ v, t = v ++ r ∧ (IsExponent v ∧ n.IsReal) ∧
        ∀ x, Delimited x → readScale negative sig before (v ++ x) = .ok (n, x) := by
    obtain ⟨_, rfl, ⟨rfl, hn⟩, hread⟩ := takes_finishReal ht
    refine ⟨[], rfl, ⟨.inl rfl, hn⟩, fun x hx => ?_⟩
    cases x with
    | nil => exact hread [] hx
    | cons b x => simpa [readScale, (hx b rfl).2.2] using hread (b :: x) hx
  cases s with
  | nil => exact hreal h
  | cons b s =>
      simp only [readScale] at h
      split at h
      · rename_i hb
        obtain ⟨v, rfl, hv, hread⟩ := takes_readExponent hb h
        refine ⟨b :: v, rfl, hv, fun x hx => ?_⟩
        simpa [readScale, hb] using hread x hx
      · exact hreal h

/-- The digits of a fraction count for its number and its scale with no look behind them. -/
theorem readFraction_digits (negative : Bool) (hds : Digits ds) (sig : Nat) (before : Int) :
    ∃ sig' before', ∀ x, NoDigit x →
      readFraction negative sig before (ds ++ x) = readScale negative sig' before' x := by
  refine ⟨(takeDigits sig ds).1, before - (takeDigits sig ds).2.1, fun x hx => ?_⟩
  have hcount : countDigits (ds ++ x) ≠ 0 := by
    rw [countDigits_append hds.2 hx]
    simpa using hds.1
  simp only [readFraction, hcount, if_false, takeDigits_append hx,
    skipDigits_append (allDigits_takeDigits hds.2 sig) hx]

/-- A fraction is read from its point on. -/
theorem takes_readFraction :
    Takes (readFraction negative sig before) fun v n => IsTail (point :: v) ∧ n.IsReal := by
  intro s n r h
  obtain ⟨ds, t, rfl, hds, ht⟩ := exists_run s
  have hne : ds ≠ [] := by
    rintro rfl
    rw [List.nil_append] at h
    simp [readFraction, countDigits_eq_zero ht] at h
  obtain ⟨sig', before', hfraction⟩ :=
    readFraction_digits negative ⟨hne, hds⟩ sig before
  rw [hfraction t ht] at h
  obtain ⟨e, rfl, ⟨he, hn⟩, hread⟩ := takes_readScale h
  refine ⟨ds ++ e, by simp, ⟨?_, hn⟩, fun x hx => ?_⟩
  · exact ⟨point :: ds, e, rfl, .inr ⟨ds, rfl, hne, hds⟩, he⟩
  · rw [List.append_assoc, hfraction _ (he.noDigit hx), hread x hx]

theorem takes_readAfterLong {extra : Nat} :
    Takes (readAfterLong negative sig extra) fun v n => IsTail v ∧ n.IsReal := by
  intro s n r h
  have hscale {t : Bytes} (ht : readScale negative sig extra t = .ok (n, r)) :
      ∃ v, t = v ++ r ∧ (IsTail v ∧ n.IsReal) ∧
        ∀ x, Delimited x → readAfterLong negative sig extra (v ++ x) = .ok (n, x) := by
    obtain ⟨e, rfl, ⟨he, hn⟩, hread⟩ := takes_readScale ht
    refine ⟨e, rfl, ⟨he.isTail, hn⟩, fun x hx => ?_⟩
    rw [← hread x hx]
    cases hcons : e ++ x with
    | nil => rfl
    | cons b t => simp [readAfterLong, (he.head hx b (by simp [hcons])).2]
  cases s with
  | nil => exact hscale h
  | cons b s =>
      simp only [readAfterLong] at h
      split at h
      · rename_i hb
        obtain ⟨v, rfl, hv, hread⟩ := takes_readFraction h
        refine ⟨b :: v, rfl, hb ▸ hv, fun x hx => ?_⟩
        simpa [readAfterLong, hb] using hread x hx
      · exact hscale h

theorem readAfterWhole_delimited (hx : Delimited x) :
    readAfterWhole negative n x = .ok (integer negative n, x) := by
  cases x with
  | nil => rfl
  | cons b x => simp [readAfterWhole, (hx b rfl).2.1, (hx b rfl).2.2]

/-- A numeral that is nothing but its whole part is an integer. -/
theorem takes_readAfterWhole :
    Takes (readAfterWhole negative sig)
      fun v n => IsTail v ∧ (n.IsReal ∨ v = [] ∧ n = integer negative sig) := by
  intro s n r h
  have hinteger (hr : r = s) (hn : n = integer negative sig) :
      ∃ v, s = v ++ r ∧ (IsTail v ∧ (n.IsReal ∨ v = [] ∧ n = integer negative sig)) ∧
        ∀ x, Delimited x → readAfterWhole negative sig (v ++ x) = .ok (n, x) :=
    ⟨[], hr.symm, ⟨isTail_nil, .inr ⟨rfl, hn⟩⟩, fun x hx => hn ▸ readAfterWhole_delimited hx⟩
  cases s with
  | nil =>
      obtain ⟨hn, hr⟩ := Prod.mk.inj (Except.ok.inj h)
      exact hinteger hr.symm hn.symm
  | cons b s =>
      simp only [readAfterWhole] at h
      split at h
      · rename_i hb
        obtain ⟨v, rfl, ⟨hv, hn⟩, hread⟩ := takes_readFraction h
        refine ⟨b :: v, rfl, ⟨hb ▸ hv, .inl hn⟩, fun x hx => ?_⟩
        simpa [readAfterWhole, hb] using hread x hx
      rename_i hpoint
      split at h
      · rename_i hb
        obtain ⟨v, rfl, ⟨hv, hn⟩, hread⟩ := takes_readExponent hb h
        refine ⟨b :: v, rfl, ⟨IsExponent.isTail hv, .inl hn⟩, fun x hx => ?_⟩
        simpa [readAfterWhole, hpoint, hb] using hread x hx
      · obtain ⟨hn, hr⟩ := Prod.mk.inj (Except.ok.inj h)
        exact hinteger hr.symm hn.symm

/-! ### Whole parts -/

/-- The number that digits write, behind those of a number. -/
def value (acc : Nat) (ds : Bytes) : Nat := ds.foldl (fun n b => n * 10 + digitValue b) acc

@[simp] theorem value_cons (acc : Nat) (b : UInt8) (ds : Bytes) :
    value acc (b :: ds) = value (acc * 10 + digitValue b) ds := by
  rw [value, List.foldl_cons, value]

@[simp] theorem value_append_singleton (acc : Nat) (ds : Bytes) (b : UInt8) :
    value acc (ds ++ [b]) = value acc ds * 10 + digitValue b := by
  simp [value]

theorem le_value (acc : Nat) (ds : Bytes) : acc ≤ value acc ds := by
  induction ds generalizing acc with
  | nil => exact Nat.le_refl acc
  | cons b ds ih =>
      have h := ih (acc * 10 + digitValue b)
      rw [value_cons]
      omega

/-- All the digits of a number that fits in 64 bits are taken. -/
theorem takeDigits_of_value_lt (hds : AllDigits ds) (hlt : value sig ds < wordSize) :
    (takeDigits sig ds).1 = value sig ds ∧ (takeDigits sig ds).2.2 = [] := by
  induction ds generalizing sig with
  | nil => exact ⟨rfl, rfl⟩
  | cons b ds ih =>
      rw [value_cons] at hlt ⊢
      have hb : sig * 10 + digitValue b < wordSize := Nat.lt_of_le_of_lt (le_value _ ds) hlt
      simp only [takeDigits, hds b List.mem_cons_self, hb, decide_true, Bool.and_self, if_true]
      exact ih (fun c hc => hds c (List.mem_cons_of_mem b hc)) hlt

theorem value_lt_of_takeDigits (hsig : sig < wordSize) (h : (takeDigits sig ds).2.2 = []) :
    value sig ds < wordSize := by
  induction ds generalizing sig with
  | nil => exact hsig
  | cons b ds ih =>
      simp only [takeDigits] at h
      split at h
      · rename_i hb
        rw [Bool.and_eq_true, decide_eq_true_eq] at hb
        exact ih hb.2 h
      · cases h

theorem toNat_of_isDigit (h : isDigit b = true) : 48 ≤ b.toNat ∧ b.toNat ≤ 57 := by
  rwa [isDigit, Bool.and_eq_true, decide_eq_true_eq, decide_eq_true_eq, UInt8.le_iff_toNat_le,
    UInt8.le_iff_toNat_le] at h

theorem digitValue_lt (h : isDigit b = true) : digitValue b < 10 := by
  obtain ⟨-, hb⟩ := toNat_of_isDigit h
  show b.toNat - 48 < 10
  omega

/-- A whole part is read as it is if it fits in 64 bits, and as a floating point number
otherwise. -/
theorem readMagnitude_whole (negative : Bool) (hds : IsWhole ds) :
    (value 0 ds < wordSize ∧ ∀ x, NoDigit x →
      readMagnitude negative (ds ++ x) = readAfterWhole negative (value 0 ds) x) ∨
    wordSize ≤ value 0 ds ∧ ∃ n extra, ∀ x, NoDigit x →
      readMagnitude negative (ds ++ x) = readAfterLong negative n extra x := by
  obtain ⟨⟨hne, hall⟩, hzero⟩ := hds
  cases ds with
  | nil => exact absurd rfl hne
  | cons b ds =>
      have hb : isDigit b = true := hall b List.mem_cons_self
      have hds : AllDigits ds := fun c hc => hall c (List.mem_cons_of_mem b hc)
      by_cases hb0 : b = zeroDigit
      -- a leading zero stands alone, and takes no digits behind it
      · obtain rfl : ds = [] := by simpa [hb0] using hzero (by simp [hb0])
        subst hb0
        refine .inl ⟨by decide, fun x hx => ?_⟩
        have hcount := countDigits_eq_zero hx
        have hdigit : isDigit zeroDigit = true := by decide
        have hvalue : value 0 [zeroDigit] = 0 := by decide
        simp [readMagnitude, hdigit, hcount, hvalue]
      · have hvalue : value 0 (b :: ds) = value (digitValue b) ds := by simp
        have hrest := allDigits_takeDigits hds (digitValue b)
        have hstart : digitValue b < wordSize := Nat.lt_trans (digitValue_lt hb) (by decide)
        rw [hvalue]
        by_cases hlt : value (digitValue b) ds < wordSize
        · refine .inl ⟨hlt, fun x hx => ?_⟩
          obtain ⟨hfst, hsnd⟩ := takeDigits_of_value_lt hds hlt
          have hcount := countDigits_eq_zero hx
          simp [readMagnitude, hb, hb0, takeDigits_append hx, hfst, hsnd, hcount]
        · refine .inr ⟨Nat.not_lt.mp hlt, (takeDigits (digitValue b) ds).1,
            (takeDigits (digitValue b) ds).2.2.length, fun x hx => ?_⟩
          have hsnd : (takeDigits (digitValue b) ds).2.2 ≠ [] :=
            fun h => hlt (value_lt_of_takeDigits hstart h)
          simp [readMagnitude, hb, hb0, takeDigits_append hx, countDigits_append hrest hx, hsnd,
            skipDigits_append hrest hx]

/-- What is read after a sign begins with a whole part. -/
theorem readMagnitude_shape {n : Number} (h : readMagnitude negative s = .ok (n, r)) :
    ∃ ds x, s = ds ++ x ∧ IsWhole ds ∧ NoDigit x := by
  unfold readMagnitude at h
  split at h
  · cases h
  rename_i b s
  split at h
  · cases h
  rename_i hb
  rw [Bool.not_eq_true', Bool.not_eq_false] at hb
  obtain ⟨ds, x, rfl, hds, hx⟩ := exists_run s
  refine ⟨b :: ds, x, rfl, ⟨⟨by simp, by simpa [hb] using hds⟩, fun hzero => ?_⟩, hx⟩
  obtain rfl : b = zeroDigit := by simpa using hzero
  rw [if_pos rfl] at h
  split at h
  · cases h
  · rename_i hcount
    rw [countDigits_append hds hx, Nat.not_lt, Nat.le_zero, List.length_eq_zero_iff] at hcount
    rw [hcount]

/-- A numeral without its sign, and a number that it may be read as after a sign. -/
def IsMagnitude (negative : Bool) (v : Bytes) (n : Number) : Prop :=
  (∃ whole tail, v = whole ++ tail ∧ IsWhole whole ∧ IsTail tail) ∧
    (n.IsReal ∨ IsWhole v ∧ value 0 v < wordSize ∧ n = integer negative (value 0 v))

theorem takes_readMagnitude : Takes (readMagnitude negative) (IsMagnitude negative) := by
  intro s n r h
  obtain ⟨ds, x, rfl, hds, hx⟩ := readMagnitude_shape h
  rcases readMagnitude_whole negative hds with ⟨hlt, hwhole⟩ | ⟨-, k, extra, hwhole⟩
  · rw [hwhole x hx] at h
    obtain ⟨v, rfl, ⟨hv, hn⟩, hread⟩ := takes_readAfterWhole h
    refine ⟨ds ++ v, by simp, ⟨⟨ds, v, rfl, hds, hv⟩, ?_⟩, fun x hx => ?_⟩
    · rcases hn with hn | ⟨rfl, hn⟩
      · exact .inl hn
      · rw [List.append_nil]
        exact .inr ⟨hds, hlt, hn⟩
    · rw [List.append_assoc, hwhole _ (hv.noDigit hx), hread x hx]
  · rw [hwhole x hx] at h
    obtain ⟨v, rfl, ⟨hv, hn⟩, hread⟩ := takes_readAfterLong h
    refine ⟨ds ++ v, by simp, ⟨⟨ds, v, rfl, hds, hv⟩, .inl hn⟩, fun x hx => ?_⟩
    rw [List.append_assoc, hwhole _ (hv.noDigit hx), hread x hx]

/-! ### Decimal digits -/

theorem digitValue_hexDigit : ∀ n < 10, digitValue (Write.hexDigit n) = n := by decide

theorem isDigit_hexDigit : ∀ n < 10, isDigit (Write.hexDigit n) = true := by decide

theorem hexDigit_digitValue (h : isDigit b = true) : Write.hexDigit (digitValue b) = b := by
  obtain ⟨hb, -⟩ := toNat_of_isDigit h
  rw [Write.hexDigit, if_pos (digitValue_lt h), digitValue]
  show UInt8.ofNat (48 + (b.toNat - 48)) = b
  rw [Nat.add_sub_cancel' hb, UInt8.ofNat_toNat]

theorem nat_of_lt (h : n < 10) : Write.nat n = [Write.hexDigit n] := by
  simp [Write.nat, Write.hexDigit, h, Nat.toDigits_of_lt_base h, Nat.toNat_digitChar_of_lt_ten h]

theorem nat_of_le (h : 10 ≤ n) : Write.nat n = Write.nat (n / 10) ++ [Write.hexDigit (n % 10)] := by
  have hmod : n % 10 < 10 := Nat.mod_lt n (by decide)
  simp [Write.nat, Write.hexDigit, hmod, Nat.toDigits_of_base_le (by decide) h,
    Nat.toNat_digitChar_of_lt_ten hmod]

@[simp] theorem value_nat (n : Nat) : value 0 (Write.nat n) = n := by
  induction n using Nat.strongRecOn with
  | _ n ih =>
      by_cases hn : n < 10
      · simp [nat_of_lt hn, digitValue_hexDigit n hn, value]
      · rw [nat_of_le (Nat.not_lt.mp hn), value_append_singleton, ih (n / 10) (by omega),
          digitValue_hexDigit _ (Nat.mod_lt n (by decide))]
        omega

theorem head?_append (h : ds ≠ []) (x : Bytes) : (ds ++ x).head? = ds.head? := by
  cases ds with
  | nil => exact absurd rfl h
  | cons b ds => rfl

/-- A number is written as a whole part of a numeral. -/
theorem isWhole_nat (n : Nat) : IsWhole (Write.nat n) := by
  induction n using Nat.strongRecOn with
  | _ n ih =>
      by_cases hn : n < 10
      · rw [nat_of_lt hn]
        exact ⟨⟨by simp, by simpa using isDigit_hexDigit n hn⟩, by simp⟩
      · obtain ⟨⟨hne, hall⟩, hzero⟩ := ih (n / 10) (by omega)
        have hlast := isDigit_hexDigit _ (Nat.mod_lt n (by decide))
        rw [nat_of_le (Nat.not_lt.mp hn)]
        refine ⟨⟨by simp, ?_⟩, fun hhead => ?_⟩
        · simp only [List.mem_append, List.mem_singleton]
          rintro b (hb | rfl)
          · exact hall b hb
          · exact hlast
        · rw [head?_append hne] at hhead
          have hvalue : value 0 (Write.nat (n / 10)) = 0 := by rw [hzero hhead]; decide
          rw [value_nat] at hvalue
          omega

/-- Whole parts are the ways in which numbers are written. -/
theorem nat_value (h : IsWhole ds) : Write.nat (value 0 ds) = ds := by
  -- from the right, as numbers are written: the last digit is behind those of the tenth part
  induction ds using List.reverseRecOn with
  | nil => exact absurd rfl h.1.1
  | append_singleton ds b ih =>
      obtain ⟨⟨-, hall⟩, hzero⟩ := h
      have hb : isDigit b = true := hall b (by simp)
      have hlt := digitValue_lt hb
      rw [value_append_singleton]
      by_cases hnil : ds = []
      · subst hnil
        have hvalue : value 0 [] * 10 + digitValue b = digitValue b := by simp [value]
        rw [hvalue, nat_of_lt hlt, hexDigit_digitValue hb]
        rfl
      · have hhead : (ds ++ [b]).head? = ds.head? := head?_append hnil [b]
        have hfirst : ds.head? ≠ some zeroDigit := fun h => by
          have hlength := congrArg List.length (hzero (hhead.trans h))
          simp [hnil] at hlength
        have hds := ih ⟨⟨hnil, fun c hc => hall c (by simp [hc])⟩, fun h => absurd h hfirst⟩
        have hpos : value 0 ds ≠ 0 := fun h => hfirst (by rw [← hds, h]; decide)
        rw [nat_of_le (by omega), show (value 0 ds * 10 + digitValue b) / 10 = value 0 ds by omega,
          show (value 0 ds * 10 + digitValue b) % 10 = digitValue b by omega, hds,
          hexDigit_digitValue hb]

/-! ### Numbers -/

theorem spelledBy_integer (h : n < wordSize) : (integer false n).SpelledBy (Write.nat n) :=
  ⟨h, rfl⟩

theorem integer_true (n : Nat) :
    (integer true n).IsReal ∨ (integer true n).SpelledBy (minus :: Write.nat n) := by
  simp only [integer, Bool.not_true, Bool.false_eq_true, if_false]
  split
  · exact .inl trivial
  · exact .inr ⟨by omega, by omega, rfl⟩

theorem readNumber_whole (hds : IsWhole ds) (x : Bytes) :
    readNumber (ds ++ x) = readMagnitude false (ds ++ x) := by
  obtain ⟨⟨hne, hall⟩, -⟩ := hds
  cases ds with
  | nil => exact absurd rfl hne
  | cons b ds =>
      have hb : b ≠ minus := by
        rintro rfl
        cases hall minus List.mem_cons_self
      simp [readNumber, hb]

/-- A reading of a number takes a numeral, and the digits of an integer if it is one. -/
theorem takes_readNumber :
    Takes readNumber fun v n => IsNumeral v ∧ (n.IsReal ∨ n.SpelledBy v) := by
  intro s n r h
  cases s with
  | nil => cases h
  | cons b s =>
      simp only [readNumber] at h
      split at h
      · rename_i hb
        obtain ⟨v, rfl, ⟨⟨whole, _, hv, hwhole, f, e, rfl, hf, he⟩, hn⟩, hread⟩ :=
          takes_readMagnitude h
        have hnumeral : IsNumeral (b :: v) :=
          ⟨[b], whole, f, e, by simp [hv], by simp [hb], hwhole, hf, he⟩
        refine ⟨b :: v, rfl, ⟨hnumeral, ?_⟩, fun x hx => by simpa [readNumber, hb] using hread x hx⟩
        rcases hn with hn | ⟨hv, -, rfl⟩
        · exact .inl hn
        · have hinteger := integer_true (value 0 v)
          rwa [nat_value hv, ← hb] at hinteger
      · obtain ⟨v, hs, ⟨⟨whole, _, rfl, hwhole, f, e, rfl, hf, he⟩, hn⟩, hread⟩ :=
          takes_readMagnitude h
        have hnumeral : IsNumeral (whole ++ (f ++ e)) :=
          ⟨[], whole, f, e, by simp, by simp, hwhole, hf, he⟩
        refine ⟨whole ++ (f ++ e), hs, ⟨hnumeral, ?_⟩, fun x hx => ?_⟩
        · rcases hn with hn | ⟨hv, hlt, rfl⟩
          · exact .inl hn
          · have hinteger := spelledBy_integer hlt
            rw [nat_value hv] at hinteger
            exact .inr hinteger
        · rw [List.append_assoc, readNumber_whole hwhole, ← List.append_assoc, hread x hx]

theorem readNumber_sound {n : Number} (h : readNumber s = .ok (n, r)) :
    ∃ v, s = v ++ r ∧ IsNumeral v ∧ n.SpelledBy v := by
  obtain ⟨v, rfl, ⟨hv, hn⟩, hread⟩ := takes_readNumber h
  refine ⟨v, rfl, hv, ?_⟩
  rcases hn with hreal | hn
  · cases n with
    | real sign d => exact ⟨hv, by simpa using hread [] delimited_nil⟩
    | nat n => exact hreal.elim
    | negative n => exact hreal.elim
  · exact hn

theorem readMagnitude_nat (h : n < wordSize) (hx : Delimited x) :
    readMagnitude negative (Write.nat n ++ x) = .ok (integer negative n, x) := by
  rcases readMagnitude_whole negative (isWhole_nat n) with ⟨-, hwhole⟩ | ⟨hge, -⟩
  · rw [hwhole x hx.noDigit, value_nat, readAfterWhole_delimited hx]
  · rw [value_nat] at hge
    omega

theorem readNumber_complete {n : Number} {v : Bytes} (h : n.SpelledBy v) (hx : Delimited x) :
    readNumber (v ++ x) = .ok (n, x) := by
  cases n with
  | nat n =>
      obtain ⟨hlt, rfl⟩ := h
      rw [readNumber_whole (isWhole_nat n), readMagnitude_nat hlt hx]
      rfl
  | negative n =>
      obtain ⟨hpos, hle, rfl⟩ := h
      have hlt : n < wordSize := Nat.lt_of_le_of_lt hle (by decide)
      rw [List.cons_append]
      simp only [readNumber, if_true, readMagnitude_nat hlt hx]
      rw [integer, if_neg (by simp), if_neg (by omega)]
  | real sign d =>
      -- read alone it is a numeral, which is read alike in front of anything
      obtain ⟨-, hread⟩ := h
      obtain ⟨v', hv, -, hread⟩ := takes_readNumber hread
      rw [List.append_nil] at hv
      rw [hv, hread x hx]

end SourceDesk.Json
