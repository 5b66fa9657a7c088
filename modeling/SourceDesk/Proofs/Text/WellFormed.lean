import SourceDesk.Proofs.Text.Utf8

/-! Well-formed UTF-8, said of the bytes alone. A sequence has the length that its first byte
announces and stands for a number; the number takes that many bytes, is no surrogate and does
not pass U+10FFFF. The strict reader takes the strings that are made of such sequences. -/
namespace SourceDesk.Utf8

/-- A byte that carries a sequence on. -/
def Continues (b : UInt8) : Prop := 0x80 ≤ b.toNat ∧ b.toNat < 0xC0

/-- The number of a sequence: the bits of its first byte, and six of each byte after it. -/
def number (bits : Nat) : Bytes → Nat
  | [] => bits
  | b :: r => number (bits * 64 + b.toNat % 64) r

/-- The sequences of one character. The lower bound on the number shuts out the longer forms
of what fewer bytes can say. -/
inductive Sequence : Bytes → Prop
  | one {a : UInt8} (ha : a.toNat < 0x80) : Sequence [a]
  | two {a b : UInt8} (ha : 0xC0 ≤ a.toNat ∧ a.toNat < 0xE0) (hb : Continues b)
      (hn : 0x80 ≤ number (a.toNat % 32) [b]) : Sequence [a, b]
  | three {a b c : UInt8} (ha : 0xE0 ≤ a.toNat ∧ a.toNat < 0xF0) (hb : Continues b)
      (hc : Continues c) (hn : 0x800 ≤ number (a.toNat % 16) [b, c])
      (hsurrogate : ¬(0xD800 ≤ number (a.toNat % 16) [b, c] ∧
        number (a.toNat % 16) [b, c] < 0xE000)) : Sequence [a, b, c]
  | four {a b c d : UInt8} (ha : 0xF0 ≤ a.toNat ∧ a.toNat < 0xF8) (hb : Continues b)
      (hc : Continues c) (hd : Continues d) (hn : 0x10000 ≤ number (a.toNat % 8) [b, c, d])
      (hmax : number (a.toNat % 8) [b, c, d] ≤ 0x10FFFF) : Sequence [a, b, c, d]

/-- The strings that are sequences, one after the other. -/
def WellFormed (bs : Bytes) : Prop := ∃ qs : List Bytes, (∀ q ∈ qs, Sequence q) ∧ bs = qs.flatten

theorem continues_ofNat (n : Nat) : Continues (.ofNat (n % 64 + 0x80)) := by
  rw [Continues, toNat_byte (by omega)]
  omega

/-- The bytes of a character are a sequence. -/
theorem sequence_encodeChar (c : Char) : Sequence (String.utf8EncodeChar c) := by
  have hc : c.toNat < 0xD800 ∨ 0xDFFF < c.toNat ∧ c.toNat < 0x110000 := c.valid
  simp only [String.utf8EncodeChar, show c.val.toNat = c.toNat from rfl]
  split
  · exact .one (by rw [toNat_byte (by omega)]; omega)
  split
  · refine .two ?_ (continues_ofNat _) ?_ <;>
      simp only [number, UInt8.toNat_ofNat'] <;> omega
  split
  · refine .three ?_ (continues_ofNat _) (continues_ofNat _) ?_ ?_ <;>
      simp only [number, UInt8.toNat_ofNat'] <;> omega
  · refine .four ?_ (continues_ofNat _) (continues_ofNat _) (continues_ofNat _) ?_ ?_ <;>
      simp only [number, UInt8.toNat_ofNat'] <;> omega

/-- A sequence is the bytes of a character: that of its number. -/
theorem Sequence.exists_char {q : Bytes} (h : Sequence q) : ∃ c, q = String.utf8EncodeChar c := by
  cases h with
  | @one a ha =>
      refine ⟨.ofNat a.toNat, ?_⟩
      simp only [String.utf8EncodeChar]
      rw [toNat_val_ofNat (by omega), if_pos (by omega)]
      simp
  | @two a b ha hb hn =>
      simp only [number, Continues] at *
      exact ⟨_, by rw [encodeChar_two (n := a.toNat) (m := b.toNat) (by omega) (by omega)]; simp⟩
  | @three a b c ha hb hc hn hsurrogate =>
      simp only [number, Continues] at *
      exact ⟨_, by rw [encodeChar_three (n := a.toNat) (m := b.toNat) (k := c.toNat) (by omega)
        (by omega) (by omega) (by omega) (by omega)]; simp⟩
  | @four a b c d ha hb hc hd hn hmax =>
      simp only [number, Continues] at *
      exact ⟨_, by rw [encodeChar_four (n := a.toNat) (m := b.toNat) (k := c.toNat)
        (l := d.toNat) (by omega) (by omega) (by omega) (by omega) (by omega) (by omega)]; simp⟩

theorem wellFormed_encode (s : String) : WellFormed (encode s) :=
  ⟨s.toList.map String.utf8EncodeChar, by simp [sequence_encodeChar], by
    rw [encode, List.flatMap_def]⟩

/-- Sequences, one after the other, are the bytes of a text. -/
theorem exists_encode_of_sequences {qs : List Bytes} (h : ∀ q ∈ qs, Sequence q) :
    ∃ s, qs.flatten = encode s := by
  suffices hs : ∃ cs : List Char, qs.flatten = cs.flatMap String.utf8EncodeChar by
    obtain ⟨cs, hcs⟩ := hs
    exact ⟨.ofList cs, by rw [hcs, encode, String.toList_ofList]⟩
  induction qs with
  | nil => exact ⟨[], rfl⟩
  | cons q qs ih =>
      obtain ⟨c, rfl⟩ := (h q (by simp)).exists_char
      obtain ⟨cs, hcs⟩ := ih fun q hq => h q (by simp [hq])
      exact ⟨c :: cs, by rw [List.flatten_cons, hcs, List.flatMap_cons]⟩

theorem wellFormed_iff_exists_encode {bs : Bytes} : WellFormed bs ↔ ∃ s, bs = encode s := by
  constructor
  · rintro ⟨qs, hqs, rfl⟩
    exact exists_encode_of_sequences hqs
  · rintro ⟨s, rfl⟩
    exact wellFormed_encode s

/-- The strict reader takes well-formed strings and no others. -/
theorem isSome_decode?_iff {bs : Bytes} : (decode? bs).isSome ↔ WellFormed bs := by
  simp only [Option.isSome_iff_exists, decode?_eq_some_iff, wellFormed_iff_exists_encode]

instance (bs : Bytes) : Decidable (WellFormed bs) := decidable_of_iff _ isSome_decode?_iff

-- a longer form of the null character, a surrogate, and a number that is too large
example : ∀ bs ∈ [[0xC0, 0x80], [0xED, 0xA0, 0x80], [0xF4, 0x90, 0x80, 0x80]], ¬WellFormed bs := by
  decide +kernel

/-! ### What well-formed strings are made of -/

variable {bs w : Bytes} {b : UInt8} {st : Option Pending}

theorem wellFormed_nil : WellFormed [] := ⟨[], by simp, rfl⟩

theorem WellFormed.append (hb : WellFormed bs) (hw : WellFormed w) : WellFormed (bs ++ w) := by
  obtain ⟨ps, hps, rfl⟩ := hb
  obtain ⟨qs, hqs, rfl⟩ := hw
  exact ⟨ps ++ qs, List.forall_mem_append.mpr ⟨hps, hqs⟩, List.flatten_append.symm⟩

theorem WellFormed.cons (hb : b.toNat < 0x80) (hw : WellFormed w) : WellFormed (b :: w) := by
  have hsingle : WellFormed [b] := ⟨[[b]], by simpa using .one hb, rfl⟩
  exact hsingle.append hw

theorem wellFormed_ascii (h : ∀ b ∈ bs, b.toNat < 0x80) : WellFormed bs := by
  induction bs with
  | nil => exact wellFormed_nil
  | cons b bs ih =>
      obtain ⟨hb, hbs⟩ := List.forall_mem_cons.mp h
      exact (ih hbs).cons hb

/-! ### Characters and the state of the reader -/

theorem wellFormed_iff_pieces :
    WellFormed bs ↔ ∀ p ∈ piecesFrom none bs, p.scalar?.isSome := by
  rw [← isSome_decode?_iff, decode?, ← List.all_eq_true, pieces]
  split <;> simp_all

/-- The first byte of a sequence carries none on. -/
theorem Sequence.exists_cons (h : Sequence w) : ∃ b r, w = b :: r ∧ ¬Continues b := by
  simp only [Continues]
  cases h with
  | one ha => exact ⟨_, _, rfl, by omega⟩
  | two ha => exact ⟨_, _, rfl, by omega⟩
  | three ha => exact ⟨_, _, rfl, by omega⟩
  | four ha => exact ⟨_, _, rfl, by omega⟩

/-- The bounds of a sequence that is not complete are bounds on bytes that carry it on. -/
def Pending.Waits (p : Pending) : Prop := 0x80 ≤ p.low.toNat ∧ p.high.toNat < 0xC0

theorem start_waits (b : UInt8) : ∀ p ∈ (start b).2, p.Waits := by
  rw [start_eq]
  repeat' split
  all_goals simp [Pending.Waits]

theorem step_waits (h : ∀ p ∈ st, p.Waits) (b : UInt8) : ∀ p ∈ (step st b).2, p.Waits := by
  cases st with
  | none => exact start_waits b
  | some q =>
      simp only [step]
      split
      · split <;> simp [Pending.Waits]
      · exact start_waits b

/-- No character begins where a sequence is not complete. -/
theorem eq_none_of_char {c : Char} {r : Bytes} (h : ∀ p ∈ st, p.Waits)
    (hpieces : ∀ p ∈ piecesFrom st (String.utf8EncodeChar c ++ r), p.scalar?.isSome) : st = none := by
  cases st with
  | none => rfl
  | some q =>
      obtain ⟨b, r', hb, hstart⟩ := (sequence_encodeChar c).exists_cons
      obtain ⟨hlow, hhigh⟩ := h q rfl
      obtain ⟨n, s, heq, hn, hn'⟩ := exists_of_pending hpieces
      rw [hb] at heq
      obtain ⟨rfl, -⟩ := List.cons.inj heq
      refine absurd ?_ hstart
      rw [Continues, toNat_byte (by omega)]
      omega

end SourceDesk.Utf8
