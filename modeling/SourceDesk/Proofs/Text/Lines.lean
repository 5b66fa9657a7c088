import Mathlib.Algebra.GroupWithZero.Nat
import Mathlib.Data.List.TakeWhile
import SourceDesk.Proofs.Text.Coordinates

/-! Coordinates against the lines of a text. A text is split at its line feeds; its places are
those in front of a character and the end of each line, and the offset of a place is what the
lines above it and the columns to its left take. Offsets and places answer to each other one to
one, in order. -/
namespace SourceDesk.Coordinates

variable {cs before more : List Char} {c : Char} {ls : List (List Char)} {l : List Char}
  {p q : Coordinates} {n m k : Nat}

/-- The lines of a text, without the line feeds between them. -/
def lines (cs : List Char) : List (List Char) := cs.splitOn '\n'

/-- The characters of the first lines, a line feed for each line included. -/
def above (ls : List (List Char)) (k : Nat) : Nat :=
  ((ls.take k).map fun l => l.length + 1).sum

/-- The number of characters before a place. -/
def distance (ls : List (List Char)) (p : Coordinates) : Nat :=
  above ls (p.line - 1) + (p.column - 1)

/-- The places in lines: in front of each character, and behind the last of a line. -/
structure Within (ls : List (List Char)) (p : Coordinates) : Prop where
  one_le_line : 1 ≤ p.line
  line_le : p.line ≤ ls.length
  one_le_column : 1 ≤ p.column
  column_le : ∀ l, ls[p.line - 1]? = some l → p.column ≤ l.length + 1

/-- Reading order: by lines, and in a line by columns. -/
def Before (p q : Coordinates) : Prop := p.line < q.line ∨ p.line = q.line ∧ p.column < q.column

theorem before_trichotomy (p q : Coordinates) : p.Before q ∨ p = q ∨ q.Before p := by
  obtain ⟨line, column⟩ := p
  obtain ⟨line', column'⟩ := q
  simp only [Before, mk.injEq]
  omega

/-! ### Lines -/

@[simp] theorem lines_nil : lines [] = [[]] := List.splitOn_nil _

theorem lines_ne_nil (cs : List Char) : lines cs ≠ [] := List.splitOn_ne_nil _ _

@[simp] theorem lines_feed (cs : List Char) : lines ('\n' :: cs) = [] :: lines cs := by
  simp [lines, List.splitOn_cons_eq_if_modifyHead]

theorem lines_cons (hc : c ≠ '\n') (hl : lines cs = l :: ls) : lines (c :: cs) = (c :: l) :: ls := by
  rw [lines] at hl
  simp [lines, List.splitOn_cons_eq_if_modifyHead, hc, hl]

theorem length_lines (cs : List Char) : (lines cs).length = cs.count '\n' + 1 := by
  induction cs with
  | nil => rfl
  | cons c cs ih =>
      by_cases hc : c = '\n'
      · subst hc
        rw [lines_feed, List.length_cons, ih, List.count_cons_self]
      · obtain ⟨l, ls, hl⟩ := List.exists_cons_of_ne_nil (lines_ne_nil cs)
        rw [lines_cons hc hl, List.count_cons_of_ne hc, ← ih, hl]
        rfl

theorem above_cons (l : List Char) (ls : List (List Char)) (k : Nat) :
    above (l :: ls) (k + 1) = l.length + 1 + above ls k := rfl

theorem above_succ (hl : ls[k]? = some l) : above ls (k + 1) = above ls k + (l.length + 1) := by
  rw [above, List.take_add_one, hl]
  simp [above]

theorem above_le_above (h : k ≤ m) : above ls k ≤ above ls m := by
  obtain ⟨d, rfl⟩ := Nat.exists_eq_add_of_le h
  rw [above, above, List.take_add, List.map_append, List.sum_append]
  exact Nat.le_add_right _ _

/-- All lines together hold the text, and one line feed more than it has. -/
theorem above_lines (cs : List Char) : above (lines cs) (lines cs).length = cs.length + 1 := by
  induction cs with
  | nil => rfl
  | cons c cs ih =>
      by_cases hc : c = '\n'
      · subst hc
        rw [lines_feed, List.length_cons, above_cons, ih]
        simp only [List.length_nil, List.length_cons]
        omega
      · obtain ⟨l, ls, hl⟩ := List.exists_cons_of_ne_nil (lines_ne_nil cs)
        rw [hl, List.length_cons, above_cons] at ih
        rw [lines_cons hc hl, List.length_cons, above_cons]
        simp only [List.length_cons]
        omega

/-! ### Places in reading order -/

theorem Within.exists_line (h : Within ls p) :
    ∃ l, ls[p.line - 1]? = some l ∧ p.column ≤ l.length + 1 := by
  have hline := h.one_le_line
  have hlt : p.line - 1 < ls.length := Nat.lt_of_lt_of_le (by omega) h.line_le
  exact ⟨_, List.getElem?_eq_getElem hlt, h.column_le _ (List.getElem?_eq_getElem hlt)⟩

/-- A place is no farther than the end of its line. -/
theorem Within.distance_lt (h : Within ls p) : distance ls p < above ls p.line := by
  obtain ⟨l, hl, hcolumn⟩ := h.exists_line
  have hsucc := above_succ hl
  rw [Nat.sub_add_cancel h.one_le_line] at hsucc
  have hone := h.one_le_column
  rw [distance]
  omega

theorem Within.distance_lt_distance (hp : Within ls p) (h : p.Before q) :
    distance ls p < distance ls q := by
  rcases h with hline | ⟨hline, hcolumn⟩
  · calc distance ls p < above ls p.line := hp.distance_lt
      _ ≤ above ls (q.line - 1) := above_le_above (by omega)
      _ ≤ distance ls q := Nat.le_add_right _ _
  · have hone := hp.one_le_column
    rw [distance, distance, hline]
    omega

theorem Within.before_iff (hp : Within ls p) (hq : Within ls q) :
    p.Before q ↔ distance ls p < distance ls q := by
  refine ⟨hp.distance_lt_distance, fun hlt => ?_⟩
  rcases before_trichotomy p q with h | rfl | h
  · exact h
  · exact absurd hlt (Nat.lt_irrefl _)
  · exact absurd (hq.distance_lt_distance h) (Nat.lt_asymm hlt)

theorem Within.eq_of_distance_eq (hp : Within ls p) (hq : Within ls q)
    (h : distance ls p = distance ls q) : p = q := by
  rcases before_trichotomy p q with hpq | hpq | hqp
  · exact absurd (hp.distance_lt_distance hpq) (by omega)
  · exact hpq
  · exact absurd (hq.distance_lt_distance hqp) (by omega)

theorem Within.distance_le (h : Within (lines cs) p) : distance (lines cs) p ≤ cs.length := by
  have hlt := Nat.lt_of_lt_of_le h.distance_lt (above_le_above h.line_le)
  rw [above_lines] at hlt
  exact Nat.le_of_lt_succ hlt

/-! ### The place behind some characters -/

/-- What was counted since the last line feed is all of it if there was none. -/
theorem length_takeWhile_eq_iff :
    (before.reverse.takeWhile (· != '\n')).length = before.reverse.length ↔
      (behind before).line = 1 := by
  simp only [behind, Nat.add_eq_right, List.count_eq_zero]
  constructor
  · intro hlength hmem
    have hself := (List.takeWhile_prefix (· != '\n')).eq_of_length hlength
    rw [← List.mem_reverse, ← hself] at hmem
    simpa using List.mem_takeWhile_imp hmem
  · intro hmem
    rw [List.takeWhile_eq_self_iff.mpr]
    intro d hd
    rw [bne_iff_ne]
    exact ne_of_mem_of_not_mem (List.mem_reverse.mp hd) hmem

theorem behind_feed (before : List Char) :
    behind ('\n' :: before) = ⟨(behind before).line + 1, (behind before).column⟩ := by
  have hcolumn : (('\n' :: before).reverse.takeWhile (· != '\n')).length =
      (before.reverse.takeWhile (· != '\n')).length := by
    rw [List.reverse_cons, List.takeWhile_append]
    split
    · rename_i hall
      rw [hall]
      simp
    · rfl
  simp only [behind, hcolumn, List.count_cons_self]

/-- A character in front moves what is in the first line and nothing else. -/
theorem behind_cons (hc : c ≠ '\n') (before : List Char) : behind (c :: before) =
    ⟨(behind before).line, (behind before).column + if (behind before).line = 1 then 1 else 0⟩ := by
  have hcolumn : ((c :: before).reverse.takeWhile (· != '\n')).length =
      (before.reverse.takeWhile (· != '\n')).length + if (behind before).line = 1 then 1 else 0 := by
    rw [List.reverse_cons, List.takeWhile_append]
    by_cases hall : (before.reverse.takeWhile (· != '\n')).length = before.reverse.length
    · rw [if_pos hall, if_pos (length_takeWhile_eq_iff.mp hall), hall]
      simp [hc]
    · rw [if_neg hall, if_neg fun hline => hall (length_takeWhile_eq_iff.mpr hline)]
      rfl
  rw [behind, hcolumn, List.count_cons_of_ne hc, behind]
  simp only [mk.injEq, true_and]
  omega

theorem exists_line_eq (h : 1 ≤ q.line) : ∃ k, q.line = k + 1 := ⟨q.line - 1, by omega⟩

/-- A line above moves a place down. -/
theorem Within.below (h : Within ls q) (l : List Char) :
    Within (l :: ls) ⟨q.line + 1, q.column⟩ where
  one_le_line := Nat.le_add_left 1 _
  line_le := Nat.succ_le_succ h.line_le
  one_le_column := h.one_le_column
  column_le := by
    obtain ⟨k, hk⟩ := exists_line_eq h.one_le_line
    simpa [hk] using h.column_le

theorem Within.distance_below (h : Within ls q) (l : List Char) :
    distance (l :: ls) ⟨q.line + 1, q.column⟩ = l.length + 1 + distance ls q := by
  obtain ⟨k, hk⟩ := exists_line_eq h.one_le_line
  simp only [distance, hk, Nat.add_sub_cancel, above_cons]
  omega

/-- A character in front of the first line moves the places in it to the right. -/
theorem Within.beside (h : Within (l :: ls) q) (c : Char) :
    Within ((c :: l) :: ls) ⟨q.line, q.column + if q.line = 1 then 1 else 0⟩ where
  one_le_line := h.one_le_line
  line_le := h.line_le
  one_le_column := Nat.le_add_right_of_le h.one_le_column
  column_le := by
    obtain ⟨k, hk⟩ := exists_line_eq h.one_le_line
    have hcolumn := h.column_le
    cases k with
    | zero => simpa [hk] using hcolumn
    | succ k => simpa [hk] using hcolumn

theorem Within.distance_beside (h : Within (l :: ls) q) (c : Char) :
    distance ((c :: l) :: ls) ⟨q.line, q.column + if q.line = 1 then 1 else 0⟩ =
      distance (l :: ls) q + 1 := by
  obtain ⟨k, hk⟩ := exists_line_eq h.one_le_line
  have hone := h.one_le_column
  cases k with
  | zero =>
      simp only [distance, hk, if_true, above, Nat.sub_self, List.take_zero, List.map_nil,
        List.sum_nil]
      omega
  | succ k =>
      simp only [distance, hk, Nat.add_sub_cancel, above_cons, List.length_cons]
      simp
      omega

theorem within_origin (cs : List Char) : Within (lines cs) origin where
  one_le_line := Nat.le_refl 1
  line_le := List.length_pos_iff.mpr (lines_ne_nil cs)
  one_le_column := Nat.le_refl 1
  column_le _ _ := Nat.le_add_left 1 _

/-- The place behind some characters of a text is a place of it, as far from its start. -/
theorem within_behind (cs : List Char) (hn : n ≤ cs.length) :
    Within (lines cs) (behind (cs.take n)) ∧ distance (lines cs) (behind (cs.take n)) = n := by
  induction cs generalizing n with
  | nil =>
      obtain rfl := Nat.le_zero.mp hn
      exact ⟨within_origin [], rfl⟩
  | cons c cs ih =>
      cases n with
      | zero => exact ⟨within_origin _, rfl⟩
      | succ n =>
          obtain ⟨hwithin, hdistance⟩ := ih (Nat.le_of_succ_le_succ hn)
          rw [List.take_succ_cons]
          by_cases hc : c = '\n'
          · subst hc
            rw [lines_feed, behind_feed, hwithin.distance_below, hdistance]
            exact ⟨hwithin.below [], by simp only [List.length_nil]; omega⟩
          · obtain ⟨l, ls, hl⟩ := List.exists_cons_of_ne_nil (lines_ne_nil cs)
            rw [hl] at hwithin hdistance
            rw [lines_cons hc hl, behind_cons hc, hwithin.distance_beside, hdistance]
            exact ⟨hwithin.beside c, rfl⟩

/-- Every place is behind as many characters as it is far from the start. -/
theorem Within.eq_behind (h : Within (lines cs) p) :
    p = behind (cs.take (distance (lines cs) p)) := by
  obtain ⟨hwithin, hdistance⟩ := within_behind cs h.distance_le
  exact h.eq_of_distance_eq hwithin hdistance.symm

/-! ### Offsets -/

theorem ofOffset_of_le (content : String) (h : n ≤ content.length) :
    ofOffset content n = behind (content.toList.take n) := by
  rw [ofOffset_eq_behind, Nat.min_eq_left h]

theorem ofOffset_end (content : String) (h : content.length ≤ n) :
    ofOffset content n = ofOffset content content.length := by
  rw [ofOffset_eq_behind, ofOffset_eq_behind, Nat.min_eq_right h, Nat.min_self]

theorem within_ofOffset (content : String) (n : Nat) :
    Within (lines content.toList) (ofOffset content n) ∧
      distance (lines content.toList) (ofOffset content n) = min n content.length := by
  rw [ofOffset_eq_behind]
  exact within_behind content.toList (String.length_toList ▸ Nat.min_le_right _ _)

theorem ofOffset_before_iff (content : String) (hm : m ≤ content.length) :
    (ofOffset content n).Before (ofOffset content m) ↔ n < m := by
  obtain ⟨hn, hdistance⟩ := within_ofOffset content n
  obtain ⟨hm', hdistance'⟩ := within_ofOffset content m
  rw [hn.before_iff hm', hdistance, hdistance']
  omega

/-- An offset and its coordinates tell each other. The lines above and the columns to the left
make up the offset, or the length of the text where the offset goes past its end; the offsets
within the text have the places of the text, each another one, in reading order; and a text that
goes on keeps the places that it had. -/
theorem ofOffset_exact (content : String) :
    (lines content.toList).length = content.toList.count '\n' + 1 ∧
    (∀ offset, Within (lines content.toList) (ofOffset content offset) ∧
      (((lines content.toList).take ((ofOffset content offset).line - 1)).map
        fun l => l.length + 1).sum + ((ofOffset content offset).column - 1) =
          min offset content.length) ∧
    (∀ n m, m ≤ content.length →
      ((ofOffset content n).Before (ofOffset content m) ↔ n < m)) ∧
    (∀ n m, n ≤ content.length → m ≤ content.length →
      ofOffset content n = ofOffset content m → n = m) ∧
    (∀ p, Within (lines content.toList) p →
      ∃ offset, offset ≤ content.length ∧ ofOffset content offset = p) ∧
    (∀ offset, content.length ≤ offset →
      ofOffset content offset = ofOffset content content.length) ∧
    ∀ more offset, offset ≤ content.length →
      ofOffset (content ++ more) offset = ofOffset content offset := by
  refine ⟨length_lines _, within_ofOffset content, fun n m hm => ofOffset_before_iff content hm,
    fun n m hn hm heq => ?_, fun p hp => ?_, fun offset => ofOffset_end content,
    fun more offset hoffset => ?_⟩
  · have hn' := (within_ofOffset content n).2
    rw [heq, (within_ofOffset content m).2] at hn'
    omega
  · have hle := hp.distance_le
    rw [String.length_toList] at hle
    exact ⟨_, hle, by rw [ofOffset_of_le content hle, ← hp.eq_behind]⟩
  · rw [ofOffset_of_le content hoffset, ofOffset_of_le, String.toList_append,
      List.take_append_of_le_length (String.length_toList ▸ hoffset)]
    rw [String.length_append]
    exact Nat.le_add_right_of_le hoffset

/-- Behind a line feed that ends the text there is one more place, at the start of a line. -/
example : (List.range 5).map (ofOffset "a\né\n") =
    [⟨1, 1⟩, ⟨1, 2⟩, ⟨2, 1⟩, ⟨2, 2⟩, ⟨3, 1⟩] := by
  decide

end SourceDesk.Coordinates
