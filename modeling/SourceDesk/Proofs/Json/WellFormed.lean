import SourceDesk.Proofs.Json.Skip
import SourceDesk.Proofs.Text.WellFormed

/-! Every spelling of a value is well-formed UTF-8. Outside of strings there is ASCII only, and a
string may hold any bytes as long as it means a text: an escape means whole characters, so it
cannot stand between two bytes of one. -/
namespace SourceDesk.Json

open Utf8

variable {a e w m v ds : Bytes} {b : UInt8} {n : Nat} {first : Bool}

/-! ### Strings -/

theorem hexDigit?_ascii (h : hexDigit? b = some n) : b.toNat < 0x80 := by
  simp only [hexDigit?, UInt8.le_iff_toNat_le] at h
  split at h
  · rename_i hb
    exact Nat.lt_of_le_of_lt hb.2 (by decide)
  split at h
  · rename_i hb
    exact Nat.lt_of_le_of_lt hb.2 (by decide)
  split at h
  · rename_i hb
    exact Nat.lt_of_le_of_lt hb.2 (by decide)
  · cases h

theorem IsHex.ascii (h : IsHex n ds) : ∀ b ∈ ds, b.toNat < 0x80 := by
  obtain ⟨a, b, c, d, rfl, h⟩ := h
  simp only [hexValue?] at h
  split at h
  · rename_i ha hb hc hd
    simp [hexDigit?_ascii ha, hexDigit?_ascii hb, hexDigit?_ascii hc, hexDigit?_ascii hd]
  · cases h

theorem shortEscape?_ascii {l : UInt8} (h : shortEscape? l = some b) :
    l.toNat < 0x80 ∧ b.toNat < 0x80 := by
  simp only [shortEscape?] at h
  repeat' split at h
  all_goals simp only [Option.some.injEq, reduceCtorEq] at h
  all_goals
    subst_vars
    decide

theorem IsEscape.ascii (h : IsEscape e m) : ∀ b ∈ e, b.toNat < 0x80 := by
  have hletter : unicodeLetter.toNat < 0x80 ∧ backslash.toNat < 0x80 := by decide
  cases h with
  | letter hl => simpa using (shortEscape?_ascii hl).1
  | character hn => simpa [hletter] using hn.ascii
  | pair hn _ hk => simpa [hletter, or_imp, forall_and] using ⟨hn.ascii, hk.ascii⟩

/-- An escape means a character. -/
theorem IsEscape.exists_char (h : IsEscape e m) : ∃ c, m = String.utf8EncodeChar c := by
  cases h with
  | letter hl => exact (Sequence.one (shortEscape?_ascii hl).2).exists_char
  | character => exact ⟨_, rfl⟩
  | pair => exact ⟨_, rfl⟩

/-- What means whole characters consists of whole characters. -/
theorem Means.pieces (h : Means w m) {st : Option Pending} (hst : ∀ p ∈ st, p.Waits)
    (hm : ∀ p ∈ piecesFrom st m, p.scalar?.isSome) : ∀ p ∈ piecesFrom st w, p.scalar?.isSome := by
  induction h generalizing st with
  | nil => exact hm
  | @plain b w m _ _ _ _ ih =>
      rw [piecesFrom, List.forall_mem_append] at hm ⊢
      exact ⟨hm.1, ih (step_waits hst b) hm.2⟩
  | @escape e bs w m he _ ih =>
      obtain ⟨c, rfl⟩ := he.exists_char
      obtain rfl := eq_none_of_char hst hm
      rw [piecesFrom_encodeChar, List.forall_mem_cons] at hm
      have hw := wellFormed_iff_pieces.mpr (ih hst hm.2)
      exact wellFormed_iff_pieces.mp (((wellFormed_ascii he.ascii).append hw).cons (by decide))

theorem SpelledText.wellFormed {s : String} (h : SpelledText s v) : WellFormed v := by
  obtain ⟨w, rfl, hw⟩ := h
  have hmeant := wellFormed_iff_pieces.mp (wellFormed_encode s)
  have hw : WellFormed w := wellFormed_iff_pieces.mpr (hw.pieces (by simp) hmeant)
  exact (hw.cons (by decide)).append (wellFormed_nil.cons (by decide))

/-! ### Numbers -/

theorem Digits.ascii (h : Digits ds) : ∀ b ∈ ds, b.toNat < 0x80 := fun b hb =>
  Nat.lt_of_le_of_lt (toNat_of_isDigit (h.2 b hb)).2 (by decide)

theorem IsFraction.ascii (h : IsFraction v) : ∀ b ∈ v, b.toNat < 0x80 := by
  rcases h with rfl | ⟨ds, rfl, hds⟩
  · simp
  · exact List.forall_mem_cons.mpr ⟨by decide, hds.ascii⟩

theorem IsExponent.ascii (h : IsExponent v) : ∀ b ∈ v, b.toNat < 0x80 := by
  rcases h with rfl | ⟨mark, sign, ds, rfl, hmark, hsign, hds⟩
  · simp
  · refine List.forall_mem_append.mpr ⟨List.forall_mem_cons.mpr ⟨?_, ?_⟩, hds.ascii⟩
    · simp only [isExponentMark, Bool.or_eq_true, beq_iff_eq] at hmark
      rcases hmark with rfl | rfl <;> decide
    · rcases hsign with rfl | rfl | rfl <;> simp [plus, minus]

theorem IsNumeral.ascii (h : IsNumeral v) : ∀ b ∈ v, b.toNat < 0x80 := by
  obtain ⟨sign, whole, f, x, rfl, hsign, hwhole, hf, hx⟩ := h
  have hsign : ∀ b ∈ sign, b.toNat < 0x80 := by
    rcases hsign with rfl | rfl <;> simp [minus]
  simp only [List.forall_mem_append]
  exact ⟨⟨⟨hsign, hwhole.1.ascii⟩, hf.ascii⟩, hx.ascii⟩

/-! ### Values -/

theorem Blank.wellFormed (h : Blank a) : WellFormed a := wellFormed_ascii fun b hb => by
  have hblank := h b hb
  simp only [isBlank, Bool.or_eq_true, beq_iff_eq] at hblank
  rcases hblank with ((rfl | rfl) | rfl) | rfl <;> decide

theorem IsGap.wellFormed (h : IsGap first a) : WellFormed a := by
  cases first with
  | true => exact (isGap_true.mp h).wellFormed
  | false =>
      obtain ⟨c, d, rfl, hc, hd⟩ := isGap_false.mp h
      exact hc.wellFormed.append (hd.wellFormed.cons (by decide))

theorem IsColon.wellFormed (h : IsColon a) : WellFormed a := by
  obtain ⟨c, d, rfl, hc, hd⟩ := h
  exact hc.wellFormed.append (hd.wellFormed.cons (by decide))

mutual

theorem Tree.SpelledBy.wellFormed : ∀ {t : Tree} {v : Bytes}, t.SpelledBy v → WellFormed v
  | .null, _, h => by
      obtain rfl : _ = Write.null := h
      exact wellFormed_encode "null"
  | .boolean b, _, h => by
      obtain rfl : _ = Write.word (if b then "true" else "false") := h
      exact wellFormed_encode _
  | .number _, _, h => wellFormed_ascii (Number.SpelledBy.isNumeral h).ascii
  | .text _, _, h => SpelledText.wellFormed h
  | .array _, _, ⟨_, rfl, h⟩ =>
      (h.wellFormed.cons (by decide)).append (wellFormed_nil.cons (by decide))
  | .object _, _, ⟨_, rfl, h⟩ =>
      (h.wellFormed.cons (by decide)).append (wellFormed_nil.cons (by decide))

theorem SpelledItems.wellFormed : ∀ {ts : List Tree} {first : Bool} {w : Bytes},
    SpelledItems first ts w → WellFormed w
  | [], _, _, h => Blank.wellFormed h
  | _ :: _, _, _, ⟨_, _, _, rfl, hgap, ht, hts⟩ =>
      (hgap.wellFormed.append ht.wellFormed).append hts.wellFormed

theorem SpelledMembers.wellFormed : ∀ {ms : List (String × Tree)} {first : Bool} {w : Bytes},
    SpelledMembers first ms w → WellFormed w
  | [], _, _, h => Blank.wellFormed h
  | _ :: _, _, _, ⟨_, _, _, _, _, rfl, hgap, hk, hcolon, ht, hms⟩ =>
      (((hgap.wellFormed.append hk.wellFormed).append hcolon.wellFormed).append
        ht.wellFormed).append hms.wellFormed

end

theorem Tree.SpelledIn.wellFormed {t : Tree} {text : Bytes} (h : t.SpelledIn text) :
    WellFormed text := by
  obtain ⟨a, v, b, rfl, ha, ht, hb⟩ := h
  exact (ha.wellFormed.append ht.wellFormed).append hb.wellFormed

end SourceDesk.Json
