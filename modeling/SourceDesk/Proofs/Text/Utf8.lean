import SourceDesk.Text.Utf8

/-! UTF-8, written and read. A first byte opens a sequence whose length and bounds hang
on it; the bytes of one character make one scalar, whatever follows, and nothing else does.
A well-formed byte string has fewer characters than bytes as soon as one byte is not ASCII. -/
namespace SourceDesk.Utf8

/-! ### Bytes -/

theorem start_eq (b : UInt8) : start b =
    if b.toNat < 0x80 then ([.scalar (Char.ofNat b.toNat)], none)
    else if b.toNat < 0xC2 then ([.broken [b]], none)
    else if b.toNat < 0xE0 then ([], some ⟨b.toNat % 32, 0x80, 0xBF, 0, [b]⟩)
    else if b.toNat = 0xE0 then ([], some ⟨0, 0xA0, 0xBF, 1, [b]⟩)
    else if b.toNat = 0xED then ([], some ⟨13, 0x80, 0x9F, 1, [b]⟩)
    else if b.toNat < 0xF0 then ([], some ⟨b.toNat % 16, 0x80, 0xBF, 1, [b]⟩)
    else if b.toNat = 0xF0 then ([], some ⟨0, 0x90, 0xBF, 2, [b]⟩)
    else if b.toNat < 0xF4 then ([], some ⟨b.toNat % 8, 0x80, 0xBF, 2, [b]⟩)
    else if b.toNat = 0xF4 then ([], some ⟨4, 0x80, 0x8F, 2, [b]⟩)
    else ([.broken [b]], none) := by
  simp only [start, UInt8.lt_iff_toNat_lt, ← UInt8.toNat_inj]
  rfl

variable {n bits more : Nat} {low high : UInt8} {taken r : Bytes}

theorem toNat_byte (h : n < 256) : (UInt8.ofNat n).toNat = n := UInt8.toNat_ofNat_of_lt' h

theorem piecesFrom_one (h : n < 0x80) :
    piecesFrom none (.ofNat n :: r) = .scalar (Char.ofNat n) :: piecesFrom none r := by
  simp only [piecesFrom, step]
  rw [start_eq, toNat_byte (by omega), if_pos h]
  rfl

theorem piecesFrom_two (h : 0xC2 ≤ n) (h' : n < 0xE0) : piecesFrom none (.ofNat n :: r) =
    piecesFrom (some ⟨n % 32, 0x80, 0xBF, 0, [.ofNat n]⟩) r := by
  simp only [piecesFrom, step]
  rw [start_eq, toNat_byte (by omega), if_neg (by omega), if_neg (by omega), if_pos h']
  rfl

theorem piecesFrom_three (h : 0xE0 ≤ n) (h' : n < 0xF0) : piecesFrom none (.ofNat n :: r) =
    piecesFrom (some ⟨n % 16, if n = 0xE0 then 0xA0 else 0x80, if n = 0xED then 0x9F else 0xBF, 1,
      [.ofNat n]⟩) r := by
  simp only [piecesFrom, step]
  rw [start_eq, toNat_byte (by omega), if_neg (by omega), if_neg (by omega), if_neg (by omega)]
  by_cases hfirst : n = 0xE0
  · simp [hfirst]
  · by_cases hsurrogates : n = 0xED
    · simp [hsurrogates]
    · simp [hfirst, hsurrogates, h']

theorem piecesFrom_four (h : 0xF0 ≤ n) (h' : n ≤ 0xF4) : piecesFrom none (.ofNat n :: r) =
    piecesFrom (some ⟨n % 8, if n = 0xF0 then 0x90 else 0x80, if n = 0xF4 then 0x8F else 0xBF, 2,
      [.ofNat n]⟩) r := by
  simp only [piecesFrom, step]
  rw [start_eq, toNat_byte (by omega), if_neg (by omega), if_neg (by omega), if_neg (by omega),
    if_neg (by omega), if_neg (by omega), if_neg (by omega)]
  by_cases hfirst : n = 0xF0
  · simp [hfirst]
  · by_cases hlast : n = 0xF4
    · simp [hlast]
    · rw [if_neg hfirst, if_pos (by omega), if_neg hfirst, if_neg hlast]
      rfl

theorem continues (h : low.toNat ≤ n) (h' : n ≤ high.toNat) :
    (UInt8.ofNat n).toNat = n ∧ low ≤ .ofNat n ∧ .ofNat n ≤ high := by
  have hn := toNat_byte (Nat.lt_of_le_of_lt h' high.toNat_lt)
  refine ⟨hn, UInt8.le_iff_toNat_le.mpr ?_, UInt8.le_iff_toNat_le.mpr ?_⟩ <;> rwa [hn]

theorem piecesFrom_last (h : low.toNat ≤ n) (h' : n ≤ high.toNat) :
    piecesFrom (some ⟨bits, low, high, 0, taken⟩) (.ofNat n :: r) =
      .scalar (Char.ofNat (bits * 64 + n % 64)) :: piecesFrom none r := by
  obtain ⟨hn, hin⟩ := continues h h'
  simp only [piecesFrom, step, if_pos hin, hn]
  rfl

theorem piecesFrom_more (h : low.toNat ≤ n) (h' : n ≤ high.toNat) :
    piecesFrom (some ⟨bits, low, high, more + 1, taken⟩) (.ofNat n :: r) =
      piecesFrom (some ⟨bits * 64 + n % 64, 0x80, 0xBF, more, taken ++ [.ofNat n]⟩) r := by
  obtain ⟨hn, hin⟩ := continues h h'
  simp only [piecesFrom, step, if_pos hin, hn]
  rfl

/-! ### Characters -/

theorem toNat_128 : (0x80 : UInt8).toNat = 128 := rfl

theorem toNat_191 : (0xBF : UInt8).toNat = 191 := rfl

/-- The bytes of a character are read as that character. -/
theorem piecesFrom_encodeChar (c : Char) (r : Bytes) :
    piecesFrom none (String.utf8EncodeChar c ++ r) = .scalar c :: piecesFrom none r := by
  have hc : c.toNat < 0xD800 ∨ 0xDFFF < c.toNat ∧ c.toNat < 0x110000 := c.valid
  have hchar : ∀ n, n = c.toNat → Char.ofNat n = c := by
    rintro n rfl
    exact Char.ofNat_toNat c
  -- one case for each length; the bounds of a first byte hold as `c` is no surrogate
  simp only [String.utf8EncodeChar, show c.val.toNat = c.toNat from rfl]
  split
  · simp only [List.cons_append, List.nil_append]
    rw [piecesFrom_one (by omega), Char.ofNat_toNat]
  split
  · simp only [List.cons_append, List.nil_append]
    rw [piecesFrom_two (by omega) (by omega), piecesFrom_last (by rw [toNat_128]; omega)
      (by rw [toNat_191]; omega), hchar _ (by omega)]
  split
  · simp only [List.cons_append, List.nil_append]
    rw [piecesFrom_three (by omega) (by omega), piecesFrom_more ?_ ?_,
      piecesFrom_last (by rw [toNat_128]; omega) (by rw [toNat_191]; omega), hchar _ (by omega)]
    · split
      · show 160 ≤ _
        omega
      · show 128 ≤ _
        omega
    · split
      · show _ ≤ 159
        omega
      · show _ ≤ 191
        omega
  · simp only [List.cons_append, List.nil_append]
    rw [piecesFrom_four (by omega) (by omega), piecesFrom_more ?_ ?_,
      piecesFrom_more (by rw [toNat_128]; omega) (by rw [toNat_191]; omega),
      piecesFrom_last (by rw [toNat_128]; omega) (by rw [toNat_191]; omega), hchar _ (by omega)]
    · split
      · show 144 ≤ _
        omega
      · show 128 ≤ _
        omega
    · split
      · show _ ≤ 143
        omega
      · show _ ≤ 191
        omega

/-- A byte of ASCII stands for its own character only. -/
theorem toNat_of_mem_encodeChar {c : Char} {b : UInt8} (h : b ∈ String.utf8EncodeChar c)
    (hb : b.toNat < 0x80) : b.toNat = c.toNat := by
  simp only [String.utf8EncodeChar, show c.val.toNat = c.toNat from rfl] at h
  split at h
  · rw [List.mem_singleton.mp h, toNat_byte (by omega)]
  -- every byte of a longer sequence has its highest bit set
  have hhigh : ∃ n, 0x80 ≤ n ∧ n < 0x100 ∧ b = .ofNat n := by
    split at h
    · simp only [List.mem_cons, List.not_mem_nil, or_false] at h
      rcases h with rfl | rfl <;> exact ⟨_, by omega, by omega, rfl⟩
    split at h
    · simp only [List.mem_cons, List.not_mem_nil, or_false] at h
      rcases h with rfl | rfl | rfl <;> exact ⟨_, by omega, by omega, rfl⟩
    · simp only [List.mem_cons, List.not_mem_nil, or_false] at h
      rcases h with rfl | rfl | rfl | rfl <;> exact ⟨_, by omega, by omega, rfl⟩
  obtain ⟨n, hlow, hlt, rfl⟩ := hhigh
  rw [toNat_byte hlt] at hb
  omega

/-! ### Texts -/

theorem pieces_encode_append (cs : List Char) (r : Bytes) :
    piecesFrom none (cs.flatMap String.utf8EncodeChar ++ r) =
      cs.map .scalar ++ piecesFrom none r := by
  induction cs with
  | nil => rfl
  | cons c cs ih =>
      rw [List.flatMap_cons, List.append_assoc, piecesFrom_encodeChar, ih]
      rfl

theorem decode?_of_pieces {cs : List Char} {bs : Bytes} (h : pieces bs = cs.map .scalar) :
    decode? bs = some (.ofList cs) := by
  simp [decode?, h, Piece.scalar?, List.filterMap_map, Function.comp_def]

theorem scalars_eq {ps : List Piece} (h : ∀ p ∈ ps, p.scalar?.isSome) :
    ps = (ps.filterMap Piece.scalar?).map .scalar := by
  induction ps with
  | nil => rfl
  | cons p ps ih =>
      have hps := ih fun q hq => h q (by simp [hq])
      cases p with
      | scalar c => simpa [Piece.scalar?] using hps
      | broken bytes => cases h (.broken bytes) (by simp)

theorem decode?_eq_some {bs : Bytes} {s : String} (h : decode? bs = some s) :
    pieces bs = s.toList.map .scalar := by
  simp only [decode?, Option.ite_none_right_eq_some, Option.some.injEq, List.all_eq_true] at h
  obtain ⟨hall, rfl⟩ := h
  rw [String.toList_ofList]
  exact scalars_eq hall

theorem pieces_encode (s : String) : pieces (encode s) = s.toList.map .scalar := by
  have h := pieces_encode_append s.toList []
  rw [List.append_nil, show piecesFrom none [] = [] from rfl, List.append_nil] at h
  exact h

/-- What was written is read again. -/
theorem decode?_encode (s : String) : decode? (encode s) = some s := by
  rw [decode?_of_pieces (pieces_encode s), String.ofList_toList]

theorem decodeLossy_encode (s : String) : decodeLossy (encode s) = s := by
  simp [decodeLossy, pieces_encode, Piece.scalar?, Function.comp_def]

theorem encode_injective : Function.Injective encode := by
  intro s t h
  have hdecode := decode?_encode s
  rw [h, decode?_encode] at hdecode
  exact (Option.some.inj hdecode).symm

/-! ### Well-formed strings -/

variable {m k l : Nat}

theorem toNat_val_ofNat (h : n < 0xD800 ∨ 0xDFFF < n ∧ n < 0x110000) :
    (Char.ofNat n).val.toNat = n := by
  have hvalid : n.isValidChar := h
  rw [Char.ofNat, dif_pos hvalid]
  rfl

theorem encodeChar_two (hn : 0xC2 ≤ n ∧ n < 0xE0) (hm : 0x80 ≤ m ∧ m ≤ 0xBF) :
    String.utf8EncodeChar (.ofNat (n % 32 * 64 + m % 64)) = [.ofNat n, .ofNat m] := by
  simp only [String.utf8EncodeChar]
  rw [toNat_val_ofNat (by omega), if_neg (by omega), if_pos (by omega)]
  congr 3 <;> omega

theorem encodeChar_three (hn : 0xE0 ≤ n ∧ n < 0xF0) (hm : 0x80 ≤ m ∧ m ≤ 0xBF)
    (hlow : n = 0xE0 → 0xA0 ≤ m) (hhigh : n = 0xED → m ≤ 0x9F) (hk : 0x80 ≤ k ∧ k ≤ 0xBF) :
    String.utf8EncodeChar (.ofNat ((n % 16 * 64 + m % 64) * 64 + k % 64)) =
      [.ofNat n, .ofNat m, .ofNat k] := by
  simp only [String.utf8EncodeChar]
  rw [toNat_val_ofNat (by omega), if_neg (by omega), if_neg (by omega), if_pos (by omega)]
  congr 3 <;> first | omega | (congr 2; omega)

theorem encodeChar_four (hn : 0xF0 ≤ n ∧ n ≤ 0xF4) (hm : 0x80 ≤ m ∧ m ≤ 0xBF)
    (hlow : n = 0xF0 → 0x90 ≤ m) (hhigh : n = 0xF4 → m ≤ 0x8F) (hk : 0x80 ≤ k ∧ k ≤ 0xBF)
    (hl : 0x80 ≤ l ∧ l ≤ 0xBF) :
    String.utf8EncodeChar (.ofNat (((n % 8 * 64 + m % 64) * 64 + k % 64) * 64 + l % 64)) =
      [.ofNat n, .ofNat m, .ofNat k, .ofNat l] := by
  simp only [String.utf8EncodeChar]
  rw [toNat_val_ofNat (by omega), if_neg (by omega), if_neg (by omega), if_neg (by omega)]
  congr 3 <;> first | omega | (congr 3; omega)

/-- In a string without broken sequences, an open sequence goes on within its bounds. -/
theorem exists_of_pending {st : Pending} {bs : Bytes}
    (h : ∀ p ∈ piecesFrom (some st) bs, p.scalar?.isSome) :
    ∃ n r, bs = .ofNat n :: r ∧ st.low.toNat ≤ n ∧ n ≤ st.high.toNat := by
  cases bs with
  | nil => exact absurd (h (.broken st.taken) (by simp [piecesFrom])) (by simp [Piece.scalar?])
  | cons b r =>
      by_cases hin : st.low ≤ b ∧ b ≤ st.high
      · exact ⟨b.toNat, r, by simp, UInt8.le_iff_toNat_le.mp hin.1, UInt8.le_iff_toNat_le.mp hin.2⟩
      · exact absurd (h (.broken st.taken) (by simp [piecesFrom, step, hin]))
          (by simp [Piece.scalar?])

theorem toNat_ite_le {P : Prop} [Decidable P] :
    (if P then low else high).toNat ≤ n ↔ (P → low.toNat ≤ n) ∧ (¬P → high.toNat ≤ n) := by
  by_cases h : P <;> simp [h]

theorem le_toNat_ite {P : Prop} [Decidable P] :
    n ≤ (if P then low else high).toNat ↔ (P → n ≤ low.toNat) ∧ (¬P → n ≤ high.toNat) := by
  by_cases h : P <;> simp [h]

theorem start_broken (hn : n < 0x100) (h : 0x80 ≤ n ∧ n < 0xC2 ∨ 0xF4 < n) :
    start (.ofNat n) = ([.broken [.ofNat n]], none) := by
  rw [start_eq, toNat_byte hn, if_neg (by omega)]
  rcases h with h | h
  · rw [if_pos (by omega)]
  · repeat rw [if_neg (by omega)]

/-- A string without broken sequences starts with the bytes of a character. -/
theorem exists_encodeChar {b : UInt8} (h : ∀ p ∈ piecesFrom none (b :: r), p.scalar?.isSome) :
    ∃ c r', b :: r = String.utf8EncodeChar c ++ r' := by
  obtain ⟨n, hn, rfl⟩ : ∃ n, n < 0x100 ∧ b = .ofNat n := ⟨b.toNat, b.toNat_lt, by simp⟩
  by_cases hbroken : 0x80 ≤ n ∧ n < 0xC2 ∨ 0xF4 < n
  · have hstart := start_broken hn hbroken
    exact absurd (h (.broken [.ofNat n]) (by simp [piecesFrom, step, hstart]))
      (by simp [Piece.scalar?])
  by_cases hone : n < 0x80
  · refine ⟨.ofNat n, r, ?_⟩
    simp only [String.utf8EncodeChar]
    rw [toNat_val_ofNat (by omega), if_pos (by omega)]
    rfl
  by_cases htwo : n < 0xE0
  · rw [piecesFrom_two (by omega) htwo] at h
    obtain ⟨m, r, rfl, hm, hm'⟩ := exists_of_pending h
    rw [toNat_128] at hm
    rw [toNat_191] at hm'
    exact ⟨_, r, by rw [encodeChar_two (n := n) (m := m) (by omega) (by omega)]; rfl⟩
  by_cases hthree : n < 0xF0
  · rw [piecesFrom_three (by omega) hthree] at h
    obtain ⟨m, r, rfl, hm, hm'⟩ := exists_of_pending h
    rw [piecesFrom_more hm hm'] at h
    obtain ⟨k, r, rfl, hk, hk'⟩ := exists_of_pending h
    rw [toNat_128] at hk
    rw [toNat_191] at hk'
    have hlow : (n = 0xE0 → 0xA0 ≤ m) ∧ (n ≠ 0xE0 → 0x80 ≤ m) := toNat_ite_le.mp hm
    have hhigh : (n = 0xED → m ≤ 0x9F) ∧ (n ≠ 0xED → m ≤ 0xBF) := le_toNat_ite.mp hm'
    exact ⟨_, r, by rw [encodeChar_three (n := n) (m := m) (k := k) (by omega) (by omega)
      (by omega) (by omega) (by omega)]; rfl⟩
  · rw [piecesFrom_four (by omega) (by omega)] at h
    obtain ⟨m, r, rfl, hm, hm'⟩ := exists_of_pending h
    rw [piecesFrom_more hm hm'] at h
    obtain ⟨k, r, rfl, hk, hk'⟩ := exists_of_pending h
    rw [piecesFrom_more hk hk'] at h
    obtain ⟨l, r, rfl, hl, hl'⟩ := exists_of_pending h
    rw [toNat_128] at hk hl
    rw [toNat_191] at hk' hl'
    have hlow : (n = 0xF0 → 0x90 ≤ m) ∧ (n ≠ 0xF0 → 0x80 ≤ m) := toNat_ite_le.mp hm
    have hhigh : (n = 0xF4 → m ≤ 0x8F) ∧ (n ≠ 0xF4 → m ≤ 0xBF) := le_toNat_ite.mp hm'
    exact ⟨_, r, by rw [encodeChar_four (n := n) (m := m) (k := k) (l := l) (by omega) (by omega)
      (by omega) (by omega) (by omega) (by omega)]; rfl⟩

theorem eq_flatMap_of_pieces {bs : Bytes} {cs : List Char} (h : pieces bs = cs.map .scalar) :
    bs = cs.flatMap String.utf8EncodeChar := by
  induction cs generalizing bs with
  | nil =>
      cases bs with
      | nil => rfl
      | cons b r =>
          obtain ⟨c, r', hc⟩ := exists_encodeChar (b := b) (r := r) (by
            simp [show piecesFrom none (b :: r) = _ from h])
          rw [hc, pieces, piecesFrom_encodeChar] at h
          cases h
  | cons c cs ih =>
      cases bs with
      | nil => cases h
      | cons b r =>
          obtain ⟨c', r', hc⟩ := exists_encodeChar (b := b) (r := r) (by
            simp [show piecesFrom none (b :: r) = _ from h, Piece.scalar?])
          rw [hc, pieces, piecesFrom_encodeChar, List.map_cons, List.cons.injEq,
            Piece.scalar.injEq] at h
          obtain ⟨rfl, hrest⟩ := h
          rw [hc, List.flatMap_cons, ih hrest]

/-- What is read is what was written. -/
theorem decode?_eq_some_iff {bs : Bytes} {s : String} : decode? bs = some s ↔ bs = encode s := by
  constructor
  · exact fun h => eq_flatMap_of_pieces (decode?_eq_some h)
  · rintro rfl
    exact decode?_encode s

/-! ### Lengths -/

theorem length_start (b : UInt8) : (start b).1.length ≤ 1 := by
  rw [start_eq]
  repeat' split
  all_goals simp

/-- A byte that is not ASCII is broken or opens a sequence. -/
theorem start_cases {b : UInt8} (hb : 0x80 ≤ b.toNat) :
    start b = ([.broken [b]], none) ∨ ∃ p, start b = ([], some p) := by
  rw [start_eq, if_neg (by omega)]
  repeat' split
  all_goals first | exact .inl rfl | exact .inr ⟨_, rfl⟩

theorem start_eq_nil {b : UInt8} (hb : 0x80 ≤ b.toNat)
    (h : ∀ p ∈ (start b).1, p.scalar?.isSome) : (start b).1 = [] := by
  rcases start_cases hb with hbroken | ⟨p, hopen⟩
  · rw [hbroken] at h
    exact absurd (h (.broken [b]) (by simp)) (by simp [Piece.scalar?])
  · rw [hopen]

/-- In a string without broken sequences, no byte ends two pieces. -/
theorem length_step {st : Option Pending} {b : UInt8}
    (h : ∀ p ∈ (step st b).1, p.scalar?.isSome) : (step st b).1.length ≤ 1 := by
  cases st with
  | none => exact length_start b
  | some p =>
      simp only [step] at h ⊢
      split at h
      · rename_i hin
        rw [if_pos hin]
        split <;> simp
      · exact absurd (h (.broken p.taken) (by simp)) (by simp [Piece.scalar?])

theorem length_piecesFrom {st : Option Pending} {bs : Bytes}
    (h : ∀ p ∈ piecesFrom st bs, p.scalar?.isSome) : (piecesFrom st bs).length ≤ bs.length := by
  induction bs generalizing st with
  | nil =>
      cases st with
      | none => simp [piecesFrom]
      | some p =>
          exact absurd (h (.broken p.taken) (by simp [piecesFrom])) (by simp [Piece.scalar?])
  | cons b bs ih =>
      simp only [piecesFrom, List.mem_append] at h ⊢
      have hfirst := length_step fun p hp => h p (.inl hp)
      have hrest := ih fun p hp => h p (.inr hp)
      simp only [List.length_append, List.length_cons]
      omega

/-- A well-formed byte string that is not all ASCII has fewer characters than bytes. -/
theorem length_pieces_lt {bs : Bytes} (h : ∀ p ∈ pieces bs, p.scalar?.isSome)
    (hb : ∃ b ∈ bs, 0x80 ≤ b.toNat) : (pieces bs).length < bs.length := by
  unfold pieces at h ⊢
  induction bs with
  | nil => simp at hb
  | cons b bs ih =>
      simp only [piecesFrom, List.mem_append] at h ⊢
      simp only [List.length_append, List.length_cons]
      by_cases hascii : b.toNat < 0x80
      · have hstep : step none b = ([.scalar (Char.ofNat b.toNat)], none) := by
          rw [step, start_eq, if_pos hascii]
        rw [hstep] at h ⊢
        have hrest : ∃ b ∈ bs, 0x80 ≤ b.toNat := by
          obtain ⟨b', hmem, hb'⟩ := hb
          rcases List.mem_cons.mp hmem with rfl | hmem
          · omega
          · exact ⟨b', hmem, hb'⟩
        have hlen := ih (fun p hp => h p (.inr hp)) hrest
        simp only [List.length_singleton]
        omega
      · -- a sequence is open, so this byte ends no piece and every later one at most one
        have hnone : (step none b).1 = [] := by
          exact start_eq_nil (by omega) fun p hp => h p (.inl hp)
        have hlen := length_piecesFrom fun p hp => h p (.inr hp)
        rw [hnone, List.length_nil]
        omega

end SourceDesk.Utf8
