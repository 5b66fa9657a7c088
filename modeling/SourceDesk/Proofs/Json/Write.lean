import Mathlib.Data.List.Forall2
import SourceDesk.Proofs.Json.Numeral
import SourceDesk.Proofs.Json.Scan

/-! What is written, in the grammar: every writer writes a spelling of its value, and writes it
on one line without control characters. -/
namespace SourceDesk.Json

variable {a b w m : Bytes} {c : Char} {n : Nat}

/-! ### Printable text -/

/-- Text in UTF-8 in which nothing is a control character. -/
def Printable (bs : Bytes) : Prop :=
  ∃ s : String, bs = Utf8.encode s ∧ ∀ c ∈ s.toList, 0x20 ≤ c.toNat

theorem toNat_char_ofNat (hn : n < 0x80) : (Char.ofNat n).toNat = n :=
  Utf8.toNat_val_ofNat (.inl (by omega))

theorem encodeChar_ascii (hn : n < 0x80) : String.utf8EncodeChar (Char.ofNat n) = [UInt8.ofNat n] := by
  have hval : (Char.ofNat n).val.toNat = n := toNat_char_ofNat hn
  simp [String.utf8EncodeChar, hval]
  omega

theorem encode_append (s t : String) : Utf8.encode (s ++ t) = Utf8.encode s ++ Utf8.encode t := by
  simp [Utf8.encode]

theorem Printable.append (ha : Printable a) (hb : Printable b) : Printable (a ++ b) := by
  obtain ⟨s, rfl, hs⟩ := ha
  obtain ⟨t, rfl, ht⟩ := hb
  refine ⟨s ++ t, (encode_append s t).symm, fun c hc => ?_⟩
  rw [String.toList_append, List.mem_append] at hc
  exact hc.elim (hs c) (ht c)

theorem printable_nil : Printable [] := ⟨"", rfl, by simp⟩

theorem printable_singleton {b : UInt8} (h : 0x20 ≤ b.toNat) (h' : b.toNat < 0x80) :
    Printable [b] := by
  refine ⟨.singleton (Char.ofNat b.toNat), ?_, ?_⟩
  · simp [Utf8.encode, encodeChar_ascii h']
  · simp [toNat_char_ofNat h', h]

theorem Printable.cons {b : UInt8} (h : 0x20 ≤ b.toNat) (h' : b.toNat < 0x80) (hw : Printable w) :
    Printable (b :: w) :=
  (printable_singleton h h').append hw

theorem printable_ascii (h : ∀ b ∈ w, 0x20 ≤ b.toNat ∧ b.toNat < 0x80) : Printable w := by
  induction w with
  | nil => exact printable_nil
  | cons b w ih =>
      obtain ⟨hlow, hhigh⟩ := h b List.mem_cons_self
      exact .cons hlow hhigh (ih fun c hc => h c (List.mem_cons_of_mem b hc))

theorem printable_flatMap {α : Type} {f : α → Bytes} {xs : List α} (h : ∀ x ∈ xs, Printable (f x)) :
    Printable (xs.flatMap f) := by
  induction xs with
  | nil => exact printable_nil
  | cons x xs ih =>
      rw [List.flatMap_cons]
      exact (h x List.mem_cons_self).append (ih fun y hy => h y (List.mem_cons_of_mem x hy))

/-- No byte of a printable text is a control character. -/
theorem Printable.le (h : Printable w) {b : UInt8} (hb : b ∈ w) : 0x20 ≤ b := by
  obtain ⟨s, rfl, hs⟩ := h
  obtain ⟨c, hc, hb⟩ := List.mem_flatMap.mp hb
  by_contra hlt
  have hlt : b.toNat < 32 := UInt8.lt_iff_toNat_lt.mp (UInt8.not_le.mp hlt)
  have heq := Utf8.toNat_of_mem_encodeChar hb (by omega)
  have hge := hs c hc
  omega

/-! ### Strings -/

theorem Means.plains (h : ∀ b ∈ a, 0x20 ≤ b ∧ b ≠ quote ∧ b ≠ backslash) (hw : Means w m) :
    Means (a ++ w) (a ++ m) := by
  induction a with
  | nil => exact hw
  | cons b a ih =>
      obtain ⟨hcontrol, hquote, hbackslash⟩ := h b List.mem_cons_self
      exact .plain hcontrol hquote hbackslash (ih fun c hc => h c (List.mem_cons_of_mem b hc))

theorem hexValue_hexDigit : ∀ n < 32,
    hexValue? 0x30 0x30 (Write.hexDigit (n / 16)) (Write.hexDigit (n % 16)) = some n := by
  decide

theorem hexDigit_ascii : ∀ n < 16,
    0x20 ≤ (Write.hexDigit n).toNat ∧ (Write.hexDigit n).toNat < 0x80 := by
  decide

/-- A character is spelled as it is, but for quotes, backslashes and control characters. -/
theorem means_char (c : Char) (h : Means w m) :
    Means (Write.char c ++ w) (String.utf8EncodeChar c ++ m) := by
  have hletter {n : Nat} {l : UInt8} (hc : c.toNat = n) (hn : n < 0x80)
      (hl : shortEscape? l = some (UInt8.ofNat n)) :
      Means ([backslash, l] ++ w) (String.utf8EncodeChar c ++ m) := by
    rw [← Char.ofNat_toNat c, hc, encodeChar_ascii hn]
    exact .escape (.letter hl) h
  unfold Write.char
  split
  · exact hletter ‹_› (by decide) (by decide)
  · exact hletter ‹_› (by decide) (by decide)
  · exact hletter ‹_› (by decide) (by decide)
  · exact hletter ‹_› (by decide) (by decide)
  · exact hletter ‹_› (by decide) (by decide)
  · exact hletter ‹_› (by decide) (by decide)
  · exact hletter ‹_› (by decide) (by decide)
  · split
    · rename_i hcontrol
      have hn : IsHex c.toNat
          [0x30, 0x30, Write.hexDigit (c.toNat / 16), Write.hexDigit (c.toNat % 16)] :=
        ⟨_, _, _, _, rfl, hexValue_hexDigit _ hcontrol⟩
      have hcode : codePoint c.toNat = String.utf8EncodeChar c := by
        rw [codePoint, Char.ofNat_toNat]
      rw [← hcode]
      -- control characters are far from the surrogates
      refine .escape (.character hn ?_ ?_) h
      · rw [isLead, Bool.and_eq_false_iff, decide_eq_false_iff_not]
        omega
      · rw [isTrail, Bool.and_eq_false_iff, decide_eq_false_iff_not]
        omega
    · rename_i hquote hbackslash hcontrol
      refine Means.plains (fun b hb => ?_) h
      -- a byte of ASCII would be the character itself
      have hbyte {k : UInt8} (hk : k.toNat < 0x80) (hne : c.toNat ≠ k.toNat) : b ≠ k := by
        rintro rfl
        exact hne (Utf8.toNat_of_mem_encodeChar hb hk).symm
      refine ⟨UInt8.not_lt.mp fun hlt => ?_, hbyte (by decide) hquote, hbyte (by decide) hbackslash⟩
      have hlt : b.toNat < 32 := UInt8.lt_iff_toNat_lt.mp hlt
      have heq := Utf8.toNat_of_mem_encodeChar hb (by omega)
      omega

theorem spelledText_text (s : String) : SpelledText s (Write.text s) := by
  refine ⟨s.toList.flatMap Write.char, rfl, ?_⟩
  rw [Utf8.encode]
  induction s.toList with
  | nil => exact .nil
  | cons c cs ih => simpa only [List.flatMap_cons] using means_char c ih

theorem printable_char (c : Char) : Printable (Write.char c) := by
  unfold Write.char
  split
  all_goals try exact .cons (by decide) (by decide) (printable_singleton (by decide) (by decide))
  split
  · rename_i hcontrol
    have hhigh := hexDigit_ascii (c.toNat / 16) (by omega)
    have hlow := hexDigit_ascii (c.toNat % 16) (by omega)
    refine printable_ascii ?_
    simp only [List.forall_mem_cons]
    exact ⟨by decide, by decide, by decide, by decide, hhigh, hlow, by simp⟩
  · rename_i hcontrol
    exact ⟨.singleton c, by simp [Utf8.encode], by simpa using hcontrol⟩

theorem printable_text (s : String) : Printable (Write.text s) :=
  .append (.cons (by decide) (by decide) (printable_flatMap fun c _ => printable_char c))
    (printable_singleton (by decide) (by decide))

/-! ### Values -/

theorem Printable.separated {vs : List Bytes} (h : ∀ v ∈ vs, Printable v) :
    Printable (Write.separated vs) := by
  induction vs with
  | nil => exact printable_nil
  | cons v vs ih =>
      have hv := h v List.mem_cons_self
      have hvs := ih fun x hx => h x (List.mem_cons_of_mem v hx)
      cases vs with
      | nil => exact hv
      | cons v' vs => exact hv.append (.cons (by decide) (by decide) hvs)

theorem Printable.list {vs : List Bytes} (h : ∀ v ∈ vs, Printable v) : Printable (Write.list vs) :=
  .append (.cons (by decide) (by decide) (.separated h))
    (printable_singleton (by decide) (by decide))

theorem Printable.object {ms : List (String × Bytes)} (h : ∀ m ∈ ms, Printable m.2) :
    Printable (Write.object ms) := by
  refine .append (.cons (by decide) (by decide) (.separated ?_))
    (printable_singleton (by decide) (by decide))
  intro v hv
  obtain ⟨⟨key, value⟩, hm, rfl⟩ := List.mem_map.mp hv
  exact (printable_text key).append (.cons (by decide) (by decide) (h _ hm))

/-! Behind a comma, what may stand first may stand later. -/

theorem SpelledItems.behind {t : Tree} {ts : List Tree} (h : SpelledItems true (t :: ts) w) :
    SpelledItems false (t :: ts) (comma :: w) := by
  obtain ⟨gap, v, rest, rfl, hgap, hv, hrest⟩ := h
  exact ⟨comma :: gap, v, rest, rfl, isGap_false.mpr ⟨[], gap, rfl, blank_nil, isGap_true.mp hgap⟩,
    hv, hrest⟩

theorem SpelledMembers.behind {k : String} {t : Tree} {ms : List (String × Tree)}
    (h : SpelledMembers true ((k, t) :: ms) w) : SpelledMembers false ((k, t) :: ms) (comma :: w) := by
  obtain ⟨gap, key, mid, v, rest, rfl, hgap, h⟩ := h
  exact ⟨comma :: gap, key, mid, v, rest, rfl,
    isGap_false.mpr ⟨[], gap, rfl, blank_nil, isGap_true.mp hgap⟩, h⟩

theorem spelledItems_separated {ts : List Tree} {vs : List Bytes}
    (h : List.Forall₂ Tree.SpelledBy ts vs) : SpelledItems true ts (Write.separated vs) := by
  induction h with
  | nil => exact blank_nil
  | @cons t v ts vs hv h ih =>
      cases h with
      | nil => exact ⟨[], v, [], by simp [Write.separated], isGap_true.mpr blank_nil, hv, blank_nil⟩
      | cons => exact ⟨[], v, _, rfl, isGap_true.mpr blank_nil, hv, ih.behind⟩

theorem spelledBy_list {ts : List Tree} {vs : List Bytes} (h : List.Forall₂ Tree.SpelledBy ts vs) :
    (Tree.array ts).SpelledBy (Write.list vs) :=
  ⟨_, rfl, spelledItems_separated h⟩

theorem spelledBy_list_map {α : Type} {f : α → Tree} {g : α → Bytes} {xs : List α}
    (h : ∀ x ∈ xs, (f x).SpelledBy (g x)) :
    (Tree.array (xs.map f)).SpelledBy (Write.list (xs.map g)) := by
  apply spelledBy_list
  rwa [List.forall₂_map_left_iff, List.forall₂_map_right_iff, List.forall₂_same]

/-- A member with a written value that spells the value of a member. -/
def SpelledMember (m : String × Tree) (v : String × Bytes) : Prop :=
  m.1 = v.1 ∧ m.2.SpelledBy v.2

theorem spelledMember_text (k s : String) : SpelledMember (k, .text s) (k, Write.text s) :=
  ⟨rfl, spelledText_text s⟩

theorem spelledMembers_separated {ms : List (String × Tree)} {vs : List (String × Bytes)}
    (h : List.Forall₂ SpelledMember ms vs) :
    SpelledMembers true ms (Write.separated (vs.map fun m => Write.member m.1 m.2)) := by
  have hcolon : IsColon [colon] := ⟨[], [], rfl, blank_nil, blank_nil⟩
  induction h with
  | nil => exact blank_nil
  | @cons m v ms vs hm h ih =>
      obtain ⟨k, t⟩ := m
      obtain ⟨rfl, ht⟩ := hm
      cases h with
      | nil =>
          exact ⟨[], Write.text v.1, [colon], v.2, [], by simp [Write.separated, Write.member],
            isGap_true.mpr blank_nil, spelledText_text v.1, hcolon, ht, blank_nil⟩
      | cons =>
          exact ⟨[], Write.text v.1, [colon], v.2, _, by simp [Write.separated, Write.member],
            isGap_true.mpr blank_nil, spelledText_text v.1, hcolon, ht, ih.behind⟩

theorem spelledBy_object {ms : List (String × Tree)} {vs : List (String × Bytes)}
    (h : List.Forall₂ SpelledMember ms vs) : (Tree.object ms).SpelledBy (Write.object vs) :=
  ⟨_, rfl, spelledMembers_separated h⟩

end SourceDesk.Json
