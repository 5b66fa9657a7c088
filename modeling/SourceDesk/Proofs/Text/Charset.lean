import SourceDesk.Proofs.Text.Utf8
import SourceDesk.Text.Charset

/-! Reading what was written. The label of a text is not stored with it, so a reader
guesses the charset from the bytes: this says for which texts it comes to another text. -/
namespace SourceDesk

/-! ### windows-1252 -/

namespace Windows1252

theorem length_upper : upper.length = 32 := rfl

theorem decodeByte_of_encodeChar? {c : Char} {b : UInt8} (h : encodeChar? c = some b) :
    decodeByte b = c := by
  unfold encodeChar? at h
  split at h
  · rename_i hrange
    obtain rfl := Option.some.inj h
    have hb := Utf8.toNat_byte (n := c.toNat) (by omega)
    have hout : ¬((0x80 : UInt8) ≤ .ofNat c.toNat ∧ UInt8.ofNat c.toNat < 0xA0) := by
      rw [UInt8.le_iff_toNat_le, UInt8.lt_iff_toNat_lt, hb]
      show ¬(128 ≤ c.toNat ∧ c.toNat < 160)
      omega
    rw [decodeByte, if_neg hout, hb, Char.ofNat_toNat]
  · obtain ⟨i, hi, rfl⟩ := Option.map_eq_some_iff.mp h
    obtain ⟨hlt, hchar, -⟩ := List.idxOf?_eq_some_iff.mp hi
    have hlt32 : i < 32 := length_upper ▸ hlt
    have hb := Utf8.toNat_byte (n := 0x80 + i) (by omega)
    have hin : (0x80 : UInt8) ≤ .ofNat (0x80 + i) ∧ UInt8.ofNat (0x80 + i) < 0xA0 := by
      rw [UInt8.le_iff_toNat_le, UInt8.lt_iff_toNat_lt, hb]
      show 128 ≤ 0x80 + i ∧ 0x80 + i < 160
      omega
    rw [decodeByte, if_pos hin, hb, Nat.add_sub_cancel_left, List.getD_eq_getElem?_getD,
      List.getElem?_eq_getElem hlt, hchar]
    rfl

theorem decodeByte_ascii {b : UInt8} (h : b.toNat < 0x80) : decodeByte b = Char.ofNat b.toNat := by
  have hout : ¬((0x80 : UInt8) ≤ b ∧ b < 0xA0) := by
    rw [UInt8.le_iff_toNat_le]
    show ¬(128 ≤ b.toNat ∧ _)
    omega
  rw [decodeByte, if_neg hout]

end Windows1252

namespace Charset

/-- Where each character takes the byte under which a table has it, the table reads the bytes. -/
theorem encodeChars?_of_table {charset : Charset} {table : UInt8 → Char}
    (htable : ∀ {c bs}, charset.encodeChar? c = some bs → ∃ b, bs = [b] ∧ table b = c)
    {cs : List Char} {bs : Bytes} (h : charset.encodeChars? cs = some bs) : bs.map table = cs := by
  induction cs generalizing bs with
  | nil =>
      obtain rfl := Option.some.inj h
      rfl
  | cons c cs ih =>
      simp only [encodeChars?] at h
      cases hc : charset.encodeChar? c with
      | none => simp [hc] at h
      | some first =>
          cases hcs : charset.encodeChars? cs with
          | none => simp [hcs] at h
          | some rest =>
              obtain ⟨b, rfl, hb⟩ := htable hc
              simp only [hc, hcs, List.singleton_append, Option.some.injEq] at h
              subst h
              rw [List.map_cons, ih hcs, hb]

theorem encodeChars?_windows1252 {cs : List Char} {bs : Bytes}
    (h : windows1252.encodeChars? cs = some bs) : bs.map Windows1252.decodeByte = cs := by
  refine encodeChars?_of_table (fun hc => ?_) h
  obtain ⟨b, hb, rfl⟩ := Option.map_eq_some_iff.mp hc
  exact ⟨b, rfl, Windows1252.decodeByte_of_encodeChar? hb⟩

theorem encodeChars?_utf8 (cs : List Char) :
    utf8.encodeChars? cs = some (cs.flatMap String.utf8EncodeChar) := by
  induction cs with
  | nil => rfl
  | cons c cs ih => simp [encodeChars?, encodeChar?, ih]

end Charset

section

variable [FurtherCharsets]

/-- A label of one of the charsets here is no matter of any other. -/
theorem encodeText?_of_ofLabel? {label : String} {cs : Charset}
    (h : Charset.ofLabel? label = some cs) (text : String) :
    encodeText? text label = cs.encode? text := by
  rw [encodeText?, h]

theorem encodeText?_utf8 (text : String) : encodeText? text "utf-8" = some (Utf8.encode text) := by
  rw [encodeText?_of_ofLabel? (by decide : Charset.ofLabel? "utf-8" = some .utf8)]
  exact Charset.encodeChars?_utf8 text.toList

theorem encodeText?_windows1252 (text : String) :
    encodeText? text "windows-1252" = Charset.windows1252.encode? text :=
  encodeText?_of_ofLabel? (by decide) text

theorem toList_of_encodeText? {text : String} {data : Bytes}
    (h : encodeText? text "windows-1252" = some data) :
    text.toList = data.map Windows1252.decodeByte := by
  rw [encodeText?_windows1252] at h
  exact (Charset.encodeChars?_windows1252 h).symm

end

/-! ### Reading again -/

/-- The character that is written as the byte order mark. -/
def markChar : Char := Char.ofNat 0xFEFF

/-- Whether the bytes of a text are read as another text: in UTF-8 a text that starts
with the mark loses it, and windows-1252 is taken for UTF-8 where it looks like it and
is not all ASCII. -/
def Misread [FurtherCharsets] (label text : String) (data : Bytes) : Prop :=
  encodeText? text label = some data ∧
    (label = "utf-8" ∧ text.toList.head? = some markChar ∨
      label = "windows-1252" ∧ (∃ b ∈ data, 0x80 ≤ b.toNat) ∧
        (Utf8.decode? (dropByteOrderMark data)).isSome)

instance [FurtherCharsets] (label text : String) (data : Bytes) :
    Decidable (Misread label text data) :=
  inferInstanceAs (Decidable (_ ∧ _))

variable {text : String} {data : Bytes}

theorem encodeChar_markChar : String.utf8EncodeChar markChar = byteOrderMark := by decide

theorem dropByteOrderMark_append (data : Bytes) :
    dropByteOrderMark (byteOrderMark ++ data) = data := by
  rw [dropByteOrderMark, if_pos (by simp), List.drop_left]

theorem dropByteOrderMark_cases (data : Bytes) :
    (∃ rest, data = byteOrderMark ++ rest ∧ dropByteOrderMark data = rest) ∨
      dropByteOrderMark data = data := by
  by_cases h : byteOrderMark.isPrefixOf data
  · obtain ⟨rest, rfl⟩ := List.isPrefixOf_iff_prefix.mp h
    exact .inl ⟨rest, rfl, dropByteOrderMark_append rest⟩
  · exact .inr (by rw [dropByteOrderMark, if_neg h])

theorem decode_eq_of_decode? (h : Utf8.decode? (dropByteOrderMark data) = some text) :
    (DecodedText.decode data).content = text := by
  rw [DecodedText.decode, h]

theorem decode_eq_of_decode?_eq_none (h : Utf8.decode? (dropByteOrderMark data) = none) :
    (DecodedText.decode data).content = Windows1252.decode data := by
  rw [DecodedText.decode, h]

theorem decode_encode_of_mark {cs : List Char} (h : text.toList = markChar :: cs) :
    (DecodedText.decode (Utf8.encode text)).content = .ofList cs := by
  have hbytes : Utf8.encode text = byteOrderMark ++ Utf8.encode (.ofList cs) := by
    rw [Utf8.encode, h, List.flatMap_cons, encodeChar_markChar, Utf8.encode, String.toList_ofList]
  refine decode_eq_of_decode? ?_
  rw [hbytes, dropByteOrderMark_append, Utf8.decode?_encode]

/-- A text that does not start with the mark is read again, mark or no mark. -/
theorem decode?_dropByteOrderMark_encode (h : text.toList.head? ≠ some markChar) :
    Utf8.decode? (dropByteOrderMark (Utf8.encode text)) = some text := by
  rcases dropByteOrderMark_cases (Utf8.encode text) with ⟨rest, hdata, -⟩ | hsame
  · -- the bytes begin with the mark, so the text does
    have hpieces := Utf8.pieces_encode text
    rw [hdata, ← encodeChar_markChar, Utf8.pieces, Utf8.piecesFrom_encodeChar] at hpieces
    cases htext : text.toList with
    | nil => simp [htext] at hpieces
    | cons c cs =>
        rw [htext, List.map_cons] at hpieces
        injection hpieces with hc _
        injection hc with hc
        exact absurd (by rw [htext, ← hc]; rfl) h
  · rw [hsame, Utf8.decode?_encode]

theorem decode_encode_of_not_mark (h : text.toList.head? ≠ some markChar) :
    DecodedText.decode (Utf8.encode text) = ⟨text, "utf-8"⟩ := by
  rw [DecodedText.decode, decode?_dropByteOrderMark_encode h]

theorem decode_utf8_iff [FurtherCharsets] (henc : encodeText? text "utf-8" = some data) :
    (DecodedText.decode data).content = text ↔ text.toList.head? ≠ some markChar := by
  obtain rfl := Option.some.inj ((encodeText?_utf8 text).symm.trans henc)
  refine ⟨fun h hmark => ?_, fun h => by rw [decode_encode_of_not_mark h]⟩
  obtain ⟨cs, hcs⟩ := List.head?_eq_some_iff.mp hmark
  rw [decode_encode_of_mark hcs] at h
  rw [← h, String.toList_ofList] at hcs
  exact absurd (congrArg List.length hcs) (by simp)

/-- Bytes that are all ASCII are the same text in both charsets. -/
theorem decode?_ascii (h : ∀ b ∈ data, b.toNat < 0x80) :
    Utf8.decode? data = some (Windows1252.decode data) := by
  refine Utf8.decode?_of_pieces ?_
  unfold Utf8.pieces
  induction data with
  | nil => rfl
  | cons b data ih =>
      have hb := h b (by simp)
      have hstep : Utf8.step none b = ([.scalar (Windows1252.decodeByte b)], none) := by
        rw [Windows1252.decodeByte_ascii hb, Utf8.step, Utf8.start_eq, if_pos hb]
      rw [Utf8.piecesFrom, hstep, ih fun b' hb' => h b' (by simp [hb'])]
      rfl

/-- A text that was not all ASCII is shorter when it is read as UTF-8. -/
theorem length_lt_of_decode? (hb : ∃ b ∈ data, 0x80 ≤ b.toNat)
    (h : Utf8.decode? (dropByteOrderMark data) = some text) : text.toList.length < data.length := by
  have hpieces := Utf8.decode?_eq_some h
  have hscalars : ∀ p ∈ Utf8.pieces (dropByteOrderMark data), p.scalar?.isSome := by
    rw [hpieces]
    intro p hp
    obtain ⟨c, -, rfl⟩ := List.mem_map.mp hp
    rfl
  have hlen : (Utf8.pieces (dropByteOrderMark data)).length = text.toList.length := by
    rw [hpieces, List.length_map]
  rcases dropByteOrderMark_cases data with ⟨rest, rfl, hrest⟩ | hsame
  · have hle := Utf8.length_piecesFrom hscalars
    rw [hrest] at hle hlen
    have hmark : byteOrderMark.length = 3 := rfl
    rw [List.length_append, hmark, ← hlen, Utf8.pieces]
    omega
  · rw [hsame] at hlen hscalars
    rw [← hlen]
    exact Utf8.length_pieces_lt hscalars hb

theorem decode_windows1252_iff [FurtherCharsets]
    (henc : encodeText? text "windows-1252" = some data) :
    (DecodedText.decode data).content = text ↔
      ¬((∃ b ∈ data, 0x80 ≤ b.toNat) ∧ (Utf8.decode? (dropByteOrderMark data)).isSome) := by
  have htext : Windows1252.decode data = text := by
    rw [Windows1252.decode, ← toList_of_encodeText? henc, String.ofList_toList]
  have hlen : text.toList.length = data.length := by
    rw [toList_of_encodeText? henc, List.length_map]
  cases hd : Utf8.decode? (dropByteOrderMark data) with
  | none => simp [decode_eq_of_decode?_eq_none hd, htext]
  | some other =>
      rw [decode_eq_of_decode? hd]
      by_cases hb : ∃ b ∈ data, 0x80 ≤ b.toNat
      · -- windows-1252 has a character for each byte, and UTF-8 has fewer
        have hlt := length_lt_of_decode? hb hd
        refine ⟨fun h => ?_, fun h => absurd ⟨hb, rfl⟩ h⟩
        rw [h] at hlt
        omega
      · have hascii : ∀ b ∈ data, b.toNat < 0x80 := fun b hmem =>
          Nat.lt_of_not_le fun hge => hb ⟨b, hmem, hge⟩
        have hsame : dropByteOrderMark data = data := by
          rcases dropByteOrderMark_cases data with ⟨rest, rfl, -⟩ | hsame
          · exact absurd (hascii 0xEF (by simp [byteOrderMark])) (by decide)
          · exact hsame
        rw [hsame, decode?_ascii hascii, htext] at hd
        simp [Option.some.inj hd, hb]

/-- A text that was written is read again, if and only if it is not misread. -/
theorem decode_encode_iff [FurtherCharsets] {label : String}
    (hlabel : label = "utf-8" ∨ label = "windows-1252")
    (henc : encodeText? text label = some data) :
    (DecodedText.decode data).content = text ↔ ¬Misread label text data := by
  rcases hlabel with rfl | rfl
  · rw [decode_utf8_iff henc]
    simp [Misread, henc]
  · rw [decode_windows1252_iff henc]
    simp [Misread, henc]

/-- The label of a text that was read is one of two. -/
theorem encoding_decode (data : Bytes) : (DecodedText.decode data).encoding = "utf-8" ∨
    (DecodedText.decode data).encoding = "windows-1252" := by
  unfold DecodedText.decode
  split
  · exact .inl rfl
  · exact .inr rfl

end SourceDesk
