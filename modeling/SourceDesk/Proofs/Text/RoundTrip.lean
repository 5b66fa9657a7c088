import Mathlib.Data.List.Nodup
import SourceDesk.Proofs.Text.Charset
import SourceDesk.Proofs.Text.WellFormed

/-! Bytes that are read and written back, and texts that are written and read back. No byte is
lost on the first way but a leading byte order mark; on the second, the label is guessed, and the
guess goes wrong where the bytes of windows-1252 are well-formed UTF-8 as well. -/
namespace SourceDesk

/-! ### Bytes of windows-1252 -/

namespace Windows1252

theorem nodup_upper : upper.Nodup := by decide

/-- The characters of the upper half stand for no byte by their number. -/
theorem not_direct_of_mem_upper {c : Char} (h : c ∈ upper) :
    ¬(c.toNat < 0x80 ∨ (0xA0 ≤ c.toNat ∧ c.toNat < 0x100)) := by
  have hall : (upper.all fun c => 0x80 ≤ c.toNat ∧ (c.toNat < 0xA0 ∨ 0x100 ≤ c.toNat)) = true := by
    decide
  have hc := of_decide_eq_true (List.all_eq_true.mp hall c h)
  omega

theorem idxOf?_upper {i : Nat} (hi : i < upper.length) : upper.idxOf? upper[i] = some i :=
  List.idxOf?_eq_some_iff.mpr ⟨hi, rfl, fun j hj h =>
    absurd ((nodup_upper.getElem_inj_iff).mp h) (by omega)⟩

theorem toNat_ofNat_byte (b : UInt8) : (Char.ofNat b.toNat).toNat = b.toNat :=
  Utf8.toNat_val_ofNat (.inl (Nat.lt_trans b.toNat_lt (by decide)))

/-- The character of a byte is written as that byte. -/
theorem encodeChar?_decodeByte (b : UInt8) : encodeChar? (decodeByte b) = some b := by
  by_cases hb : 0x80 ≤ b ∧ b < 0xA0
  · have hlow : 0x80 ≤ b.toNat := UInt8.le_iff_toNat_le.mp hb.1
    have hhigh : b.toNat < 0xA0 := UInt8.lt_iff_toNat_lt.mp hb.2
    have hi : b.toNat - 0x80 < upper.length := by
      rw [length_upper]
      omega
    have hchar : decodeByte b = upper[b.toNat - 0x80] := by
      rw [decodeByte, if_pos hb, List.getD_eq_getElem?_getD, List.getElem?_eq_getElem hi]
      rfl
    rw [hchar, encodeChar?, if_neg (not_direct_of_mem_upper (List.getElem_mem hi)),
      idxOf?_upper hi, Option.map_some, Nat.add_sub_cancel' hlow, UInt8.ofNat_toNat]
  · have hdirect : b.toNat < 0x80 ∨ (0xA0 ≤ b.toNat ∧ b.toNat < 0x100) := by
      rw [UInt8.le_iff_toNat_le, UInt8.lt_iff_toNat_lt] at hb
      have hlt := b.toNat_lt
      change ¬(128 ≤ b.toNat ∧ b.toNat < 160) at hb
      omega
    rw [decodeByte, if_neg hb, encodeChar?, toNat_ofNat_byte, if_pos hdirect, UInt8.ofNat_toNat]

theorem toList_decode (data : Bytes) : (decode data).toList = data.map decodeByte :=
  String.toList_ofList

end Windows1252

theorem Charset.encodeChars?_decodeByte (data : Bytes) :
    windows1252.encodeChars? (data.map Windows1252.decodeByte) = some data := by
  induction data with
  | nil => rfl
  | cons b data ih => simp [encodeChars?, encodeChar?, Windows1252.encodeChar?_decodeByte, ih]

/-- Bytes that are read as windows-1252 are written back as they were. -/
theorem encodeText?_decode_windows1252 [FurtherCharsets] (data : Bytes) :
    encodeText? (Windows1252.decode data) "windows-1252" = some data := by
  rw [encodeText?_windows1252, Charset.encode?, Windows1252.toList_decode,
    Charset.encodeChars?_decodeByte]

/-! ### Bytes that are read -/

variable {data : Bytes}

theorem decode_of_wellFormed (h : Utf8.WellFormed (dropByteOrderMark data)) :
    (DecodedText.decode data).encoding = "utf-8" ∧
      Utf8.encode (DecodedText.decode data).content = dropByteOrderMark data := by
  obtain ⟨text, htext⟩ := Utf8.wellFormed_iff_exists_encode.mp h
  have hread : DecodedText.decode data = ⟨text, "utf-8"⟩ := by
    rw [DecodedText.decode, Utf8.decode?_eq_some_iff.mpr htext]
  rw [hread, htext]
  exact ⟨rfl, rfl⟩

theorem decode_of_not_wellFormed (h : ¬Utf8.WellFormed (dropByteOrderMark data)) :
    DecodedText.decode data = ⟨Windows1252.decode data, "windows-1252"⟩ := by
  rw [← Utf8.isSome_decode?_iff, Option.not_isSome_iff_eq_none] at h
  rw [DecodedText.decode, h]

theorem encoding_decode_iff :
    (DecodedText.decode data).encoding = "utf-8" ↔ Utf8.WellFormed (dropByteOrderMark data) := by
  by_cases h : Utf8.WellFormed (dropByteOrderMark data)
  · simp [h, decode_of_wellFormed h]
  · simp [h, decode_of_not_wellFormed h]

/-- Reading loses no byte but one leading mark, and that one only before well-formed UTF-8. What
is not well-formed has a character for each byte, those of a mark among them. -/
theorem encodeText?_decode [FurtherCharsets] (data : Bytes) :
    let d := DecodedText.decode data
    (∀ rest, data = byteOrderMark ++ rest → Utf8.WellFormed rest →
      d.encoding = "utf-8" ∧ encodeText? d.content d.encoding = some rest) ∧
    ((∀ rest, data = byteOrderMark ++ rest → ¬Utf8.WellFormed rest) →
      encodeText? d.content d.encoding = some data) ∧
    (d.encoding = "utf-8" ↔ Utf8.WellFormed (dropByteOrderMark data)) ∧
    (¬Utf8.WellFormed (dropByteOrderMark data) →
      d.encoding = "windows-1252" ∧ d.content.toList = data.map Windows1252.decodeByte ∧
        d.content.length = data.length) := by
  refine ⟨?_, fun hmark => ?_, encoding_decode_iff, fun h => ?_⟩
  · rintro rest rfl hrest
    rw [← dropByteOrderMark_append rest] at hrest
    obtain ⟨hlabel, hbytes⟩ := decode_of_wellFormed hrest
    rw [hlabel, encodeText?_utf8, hbytes, dropByteOrderMark_append]
    exact ⟨rfl, rfl⟩
  · by_cases h : Utf8.WellFormed (dropByteOrderMark data)
    · rcases dropByteOrderMark_cases data with ⟨rest, hdata, hrest⟩ | hsame
      · exact absurd (hrest ▸ h) (hmark rest hdata)
      · rw [(decode_of_wellFormed h).1, encodeText?_utf8, (decode_of_wellFormed h).2, hsame]
    · rw [decode_of_not_wellFormed h, encodeText?_decode_windows1252]
  · rw [decode_of_not_wellFormed h]
    refine ⟨rfl, Windows1252.toList_decode data, ?_⟩
    rw [← String.length_toList, Windows1252.toList_decode, List.length_map]

/-! ### Texts that are written -/

variable [FurtherCharsets] {text : String}

theorem length_of_encodeText? (h : encodeText? text "windows-1252" = some data) :
    text.length = data.length := by
  rw [← String.length_toList, toList_of_encodeText? h, List.length_map]

/-- Where the bytes of windows-1252 are taken for UTF-8, they make a shorter text. -/
theorem length_decode_lt (henc : encodeText? text "windows-1252" = some data)
    (hb : ∃ b ∈ data, 0x80 ≤ b.toNat) (h : Utf8.WellFormed (dropByteOrderMark data)) :
    (DecodedText.decode data).content.length < text.length := by
  obtain ⟨other, hother⟩ := Option.isSome_iff_exists.mp (Utf8.isSome_decode?_iff.mpr h)
  rw [decode_eq_of_decode? hother, length_of_encodeText? henc, ← String.length_toList]
  exact length_lt_of_decode? hb hother

/-- The texts that are read back as they were written. In UTF-8 those that do not begin with the
mark; in windows-1252 those whose bytes are ASCII or no well-formed UTF-8, and any other is read
back shorter. -/
theorem decode_encodeText? (text : String) :
    (∃ data, encodeText? text "utf-8" = some data ∧
      ((DecodedText.decode data).content = text ↔ text.toList.head? ≠ some markChar)) ∧
    ∀ data, encodeText? text "windows-1252" = some data →
      ((DecodedText.decode data).content = text ↔
        (∀ b ∈ data, b.toNat < 0x80) ∨ ¬Utf8.WellFormed (dropByteOrderMark data)) ∧
      (¬((∀ b ∈ data, b.toNat < 0x80) ∨ ¬Utf8.WellFormed (dropByteOrderMark data)) →
        (DecodedText.decode data).content.length < text.length) := by
  refine ⟨⟨_, encodeText?_utf8 text, decode_utf8_iff (encodeText?_utf8 text)⟩,
    fun data henc => ⟨?_, fun h => ?_⟩⟩
  · rw [decode_windows1252_iff henc, Utf8.isSome_decode?_iff, not_and_or]
    simp only [not_exists, not_and, Nat.not_le]
  · simp only [not_or, not_forall, not_not, Nat.not_lt, exists_prop] at h
    exact length_decode_lt henc h.1 h.2

end SourceDesk
