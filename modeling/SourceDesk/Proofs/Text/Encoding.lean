import Mathlib.Data.List.TakeWhile
import SourceDesk.Proofs.Text.RoundTrip

/-! Writing texts under a label. Labels name charsets in any case and with blanks around them, and
one that names none counts as UTF-8. A text is written character by character, all of it or not at
all, and what was written can be told from the bytes. Of the labels of further charsets nothing is
said here. -/
namespace SourceDesk

namespace Charset

variable {cs : Charset} {label : String} {c : Char} {l r : List Char} {data : Bytes}

/-! ### Labels -/

/-- The labels of a charset: its names in any case, perhaps with blanks around them. -/
def Named (cs : Charset) (label : String) : Prop :=
  ∃ before name after, label.toList = before ++ name ++ after ∧
    (∀ c ∈ before, isLabelBlank c = true) ∧ (∀ c ∈ after, isLabelBlank c = true) ∧
    String.ofList (name.map Char.toLower) ∈ cs.labels

theorem mem_all (cs : Charset) : cs ∈ all := by cases cs <;> decide

/-- No name belongs to two charsets. -/
theorem find?_labels {name : String} :
    (all.find? fun cs => name ∈ cs.labels) = some cs ↔ name ∈ cs.labels := by
  constructor
  · intro h
    simpa using List.find?_some h
  · have hall : ∀ cs ∈ all, ∀ name ∈ cs.labels,
        (all.find? fun cs => name ∈ cs.labels) = some cs := by decide +kernel
    exact hall cs (mem_all cs) name

theorem isLabelBlank_toLower (h : isLabelBlank c = true) : isLabelBlank c.toLower = true := by
  have hall : ([0x09, 0x0A, 0x0C, 0x0D, 0x20].map Char.ofNat).all
      (fun c => isLabelBlank c.toLower) = true := by decide
  exact List.all_eq_true.mp hall c (of_decide_eq_true h)

/-- Names have no blanks. -/
theorem not_isLabelBlank_of_mem {name : List Char}
    (h : String.ofList (name.map Char.toLower) ∈ cs.labels) (hc : c ∈ name) :
    isLabelBlank c = false := by
  have hall : ∀ cs ∈ all, ∀ name ∈ cs.labels, name.toList.all (!isLabelBlank ·) = true := by
    decide +kernel
  have hlower := List.all_eq_true.mp (hall cs (mem_all cs) _ h) c.toLower
    (by rw [String.toList_ofList]; exact List.mem_map_of_mem hc)
  by_contra hblank
  rw [isLabelBlank_toLower (by simpa using hblank)] at hlower
  cases hlower

theorem exists_trimBlanks (l : List Char) : ∃ before after, l = before ++ trimBlanks l ++ after ∧
    (∀ c ∈ before, isLabelBlank c = true) ∧ ∀ c ∈ after, isLabelBlank c = true := by
  refine ⟨l.takeWhile isLabelBlank,
    ((l.dropWhile isLabelBlank).reverse.takeWhile isLabelBlank).reverse, ?_,
    fun c hc => List.mem_takeWhile_imp hc,
    fun c hc => List.mem_takeWhile_imp (List.mem_reverse.mp hc)⟩
  rw [trimBlanks, List.append_assoc, ← List.reverse_append, List.takeWhile_append_dropWhile,
    List.reverse_reverse, List.takeWhile_append_dropWhile]

theorem trimBlanks_append {before name after : List Char}
    (hbefore : ∀ c ∈ before, isLabelBlank c = true) (hafter : ∀ c ∈ after, isLabelBlank c = true)
    (hname : ∀ c ∈ name, isLabelBlank c = false) : trimBlanks (before ++ name ++ after) = name := by
  have hkeep {n : List Char} (hn : ∀ c ∈ n, isLabelBlank c = false) :
      n.dropWhile isLabelBlank = n := by
    cases n with
    | nil => rfl
    | cons c n => exact List.dropWhile_cons_of_neg (by simp [hn c])
  have hfront : (name ++ after).dropWhile isLabelBlank = name ++ after ∨ name = [] := by
    cases name with
    | nil => exact .inr rfl
    | cons c n => exact .inl (List.dropWhile_cons_of_neg (by simp [hname c]))
  rw [trimBlanks, List.append_assoc, List.dropWhile_append_of_pos hbefore]
  rcases hfront with hfront | rfl
  · rw [hfront, List.reverse_append,
      List.dropWhile_append_of_pos (by simpa using hafter),
      hkeep (by simpa using hname), List.reverse_reverse]
  · rw [List.nil_append, List.dropWhile_eq_nil_iff.mpr hafter]
    rfl

theorem normalLabel_mem_iff : normalLabel label ∈ cs.labels ↔ cs.Named label := by
  constructor
  · intro h
    obtain ⟨before, after, hlabel, hbefore, hafter⟩ := exists_trimBlanks label.toList
    exact ⟨before, _, after, hlabel, hbefore, hafter, h⟩
  · rintro ⟨before, name, after, hlabel, hbefore, hafter, hname⟩
    rwa [normalLabel, hlabel,
      trimBlanks_append hbefore hafter fun c hc => not_isLabelBlank_of_mem hname hc]

theorem ofLabel?_eq_some_iff : ofLabel? label = some cs ↔ cs.Named label := by
  rw [ofLabel?, find?_labels, normalLabel_mem_iff]

/-! ### Characters -/

/-- The characters that a charset has a place for: what its table has, in windows-1252; ASCII and
a private area, in the charset of the user; and everything where texts are written as UTF-8. -/
def Has : Charset → Char → Prop
  | .windows1252, c => ∃ b, Windows1252.decodeByte b = c
  | .userDefined, c => c.toNat < 0x80 ∨ 0xF780 ≤ c.toNat ∧ c.toNat ≤ 0xF7FF
  | _, _ => True

theorem isSome_encodeChar?_iff : (cs.encodeChar? c).isSome ↔ cs.Has c := by
  cases cs with
  | windows1252 =>
      rw [encodeChar?, Option.isSome_map, Option.isSome_iff_exists, Has]
      refine exists_congr fun b => ⟨Windows1252.decodeByte_of_encodeChar?, ?_⟩
      rintro rfl
      exact Windows1252.encodeChar?_decodeByte b
  | userDefined =>
      simp only [encodeChar?, Has]
      split
      · simp [*]
      · split <;> simp [*]
  | _ => simp [encodeChar?, Has]

/-! ### Texts -/

/-- The labels whose charset is spelled out: those of one that is, and those of none at all. -/
def Spelled [FurtherCharsets] (label : String) : Prop :=
  (∃ cs : Charset, cs.Named label) ∨ FurtherCharsets.encoder? (normalLabel label) = none

/-- The charset that texts with such a label are written in. -/
def ofLabel (label : String) : Charset := (ofLabel? label).getD .utf8

theorem encodeChars?_cons (cs : Charset) (c : Char) (l : List Char) :
    cs.encodeChars? (c :: l) =
      (cs.encodeChar? c).bind fun bs => (cs.encodeChars? l).map (bs ++ ·) := by
  rw [encodeChars?]
  cases cs.encodeChar? c with
  | none => rfl
  | some bs => cases cs.encodeChars? l <;> rfl

theorem isSome_encodeChars?_iff : (cs.encodeChars? l).isSome ↔ ∀ c ∈ l, cs.Has c := by
  induction l with
  | nil => simp [encodeChars?]
  | cons c l ih =>
      rw [encodeChars?_cons, List.forall_mem_cons, ← ih, ← isSome_encodeChar?_iff]
      cases cs.encodeChar? c <;> simp

theorem encodeChars?_append (cs : Charset) (l r : List Char) :
    cs.encodeChars? (l ++ r) =
      (cs.encodeChars? l).bind fun a => (cs.encodeChars? r).map (a ++ ·) := by
  induction l with
  | nil => simp [encodeChars?]
  | cons c l ih =>
      rw [List.cons_append, encodeChars?_cons, encodeChars?_cons, ih]
      simp [Option.map_bind, Option.bind_map, Option.bind_assoc, Function.comp_def]

/-- The character of a byte in the charset of the user. -/
def userDefinedChar (b : UInt8) : Char :=
  if b.toNat < 0x80 then .ofNat b.toNat else .ofNat (0xF700 + b.toNat)

theorem userDefinedChar_of_encodeChar? (h : userDefined.encodeChar? c = some data) :
    ∃ b, data = [b] ∧ userDefinedChar b = c := by
  simp only [encodeChar?] at h
  split at h
  · rename_i hascii
    refine ⟨_, (Option.some.inj h).symm, ?_⟩
    rw [userDefinedChar, Utf8.toNat_byte (by omega), if_pos hascii, Char.ofNat_toNat]
  split at h
  · rename_i hascii harea
    refine ⟨_, (Option.some.inj h).symm, ?_⟩
    rw [userDefinedChar, Utf8.toNat_byte (by omega), if_neg (by omega),
      Nat.add_sub_cancel' (by omega), Char.ofNat_toNat]
  · cases h

/-- The charsets that texts are written in as UTF-8: besides UTF-8 those for reading only. -/
def WritesUtf8 (cs : Charset) : Prop := cs ≠ .windows1252 ∧ cs ≠ .userDefined

theorem WritesUtf8.encodeChars? (h : cs.WritesUtf8) (l : List Char) :
    cs.encodeChars? l = some (l.flatMap String.utf8EncodeChar) := by
  have hchar (c : Char) : cs.encodeChar? c = utf8.encodeChar? c := by
    cases cs with
    | windows1252 => exact absurd rfl h.1
    | userDefined => exact absurd rfl h.2
    | _ => rfl
  rw [← encodeChars?_utf8]
  induction l with
  | nil => rfl
  | cons c l ih => rw [encodeChars?_cons, encodeChars?_cons, hchar, ih]

/-- Characters can be told from their bytes. -/
theorem encodeChars?_injective (hl : cs.encodeChars? l = some data)
    (hr : cs.encodeChars? r = some data) : l = r := by
  by_cases h : cs.WritesUtf8
  · rw [h.encodeChars?, Option.some.injEq] at hl hr
    have hsame : Utf8.encode (.ofList l) = Utf8.encode (.ofList r) := by
      rw [Utf8.encode, Utf8.encode, String.toList_ofList, String.toList_ofList, hl, hr]
    exact String.ofList_injective (Utf8.encode_injective hsame)
  · cases cs with
    | windows1252 => rw [← encodeChars?_windows1252 hl, encodeChars?_windows1252 hr]
    | userDefined =>
        rw [← encodeChars?_of_table userDefinedChar_of_encodeChar? hl,
          encodeChars?_of_table userDefinedChar_of_encodeChar? hr]
    | _ => exact absurd ⟨by decide, by decide⟩ h

end Charset

section

variable [FurtherCharsets] {label : String}

theorem encodeText?_eq (h : Charset.Spelled label) (text : String) :
    encodeText? text label = (Charset.ofLabel label).encodeChars? text.toList := by
  unfold encodeText? Charset.ofLabel
  cases hcs : Charset.ofLabel? label with
  | some cs => rfl
  | none =>
      have hnot : ¬∃ cs : Charset, cs.Named label := by
        rintro ⟨cs, hnamed⟩
        rw [Charset.ofLabel?_eq_some_iff.mpr hnamed] at hcs
        cases hcs
      rw [h.resolve_left hnot]
      rfl

/-- Nothing is lost on the way out. A label names its charset, or UTF-8 if it names none. A text
is written if the charset has a place for each of its characters; a text made of two is written
as these are, one behind the other; and texts with the same bytes are the same. In windows-1252
each character takes a byte, and the table of that charset reads the text from them. -/
theorem encodeText?_lossless (h : Charset.Spelled label) :
    (∀ cs, Charset.ofLabel? label = some cs ↔ cs.Named label) ∧
    (∀ text, encodeText? text label = none ↔ ∃ c ∈ text.toList, ¬(Charset.ofLabel label).Has c) ∧
    ((Charset.ofLabel label).WritesUtf8 →
      ∀ text, encodeText? text label = some (Utf8.encode text)) ∧
    (∀ t u data, encodeText? (t ++ u) label = some data ↔
      ∃ a b, encodeText? t label = some a ∧ encodeText? u label = some b ∧ a ++ b = data) ∧
    (∀ t u data, encodeText? t label = some data → encodeText? u label = some data → t = u) ∧
    (Charset.ofLabel label = .windows1252 → ∀ text data, encodeText? text label = some data →
      Windows1252.decode data = text ∧ data.length = text.length) := by
  simp only [encodeText?_eq h]
  refine ⟨fun cs => Charset.ofLabel?_eq_some_iff, fun text => ?_, fun h text => h.encodeChars? _,
    fun t u data => ?_, fun t u data ht hu => ?_, fun hcs text data h => ?_⟩
  · rw [← Option.not_isSome_iff_eq_none, Charset.isSome_encodeChars?_iff]
    simp
  · rw [String.toList_append, Charset.encodeChars?_append]
    simp only [Option.bind_eq_some_iff, Option.map_eq_some_iff, exists_and_left]
  · exact String.toList_injective (Charset.encodeChars?_injective ht hu)
  · have htext : data.map Windows1252.decodeByte = text.toList :=
      Charset.encodeChars?_windows1252 (hcs ▸ h)
    refine ⟨by rw [Windows1252.decode, htext, String.ofList_toList], ?_⟩
    rw [← String.length_toList, ← htext, List.length_map]

end

attribute [local instance] FurtherCharsets.none in
/-- A reference to a character that the charset has no place for is a text of its own: neither is
written in place of the other. -/
theorem encodeText?_lossless_reference :
    Charset.Spelled " Latin1\n" ∧ encodeText? "€𐀀" " Latin1\n" = none ∧
      ∃ data, encodeText? "€&#65536;" " Latin1\n" = some data ∧
        Windows1252.decode data = "€&#65536;" ∧ data.length = 9 := by
  have hlabel : Charset.ofLabel? " Latin1\n" = some .windows1252 := by decide +kernel
  have h : Charset.Spelled " Latin1\n" :=
    .inl ⟨.windows1252, Charset.ofLabel?_eq_some_iff.mp hlabel⟩
  obtain ⟨-, -, -, -, -, hbytes⟩ := encodeText?_lossless h
  have hdata : encodeText? "€&#65536;" " Latin1\n" = some (0x80 :: Utf8.encode "&#65536;") := by
    decide +kernel
  exact ⟨h, by decide +kernel, _, hdata, hbytes (by rw [Charset.ofLabel, hlabel]; rfl) _ _ hdata⟩

end SourceDesk
