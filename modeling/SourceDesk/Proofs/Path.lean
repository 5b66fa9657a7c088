import Mathlib.Data.List.Basic
import SourceDesk.Path
import SourceDesk.Proofs.Text.Utf8

/-! Paths by their segments. What joins two paths is a slash between their bytes, so the
segments of both stand in the whole one after the other. Components are the segments that
stand for something, behind what only the first of a path can be. -/
namespace SourceDesk

namespace Path

/-! ### Splitting -/

theorem split_eq_splitOn (bs : Bytes) : split bs = bs.splitOn slash := by
  unfold List.splitOn
  induction bs with
  | nil => rw [split, List.splitOnP_nil]
  | cons b r ih =>
      rw [split, List.splitOnP_cons_eq_if_modifyHead, ih]
      by_cases hb : b = slash
      · simp [hb]
      · cases hr : List.splitOnP (· == slash) r with
        | nil => exact absurd hr (List.splitOnP_ne_nil _ r)
        | cons first rest => simp [hb]

theorem split_ne_nil (bs : Bytes) : split bs ≠ [] := by
  rw [split_eq_splitOn]
  exact List.splitOn_ne_nil _ _

theorem split_append_slash (bs r : Bytes) : split (bs ++ slash :: r) = split bs ++ split r := by
  simp only [split_eq_splitOn, List.splitOn]
  exact List.splitOnP_append_cons bs r (by simp)

theorem split_append_of_not_mem {bs : Bytes} (h : slash ∉ bs) (r : Bytes) :
    split (bs ++ r) = (split r).modifyHead (bs ++ ·) := by
  simp only [split_eq_splitOn, List.splitOn]
  induction bs with
  | nil =>
      rw [List.nil_append]
      cases List.splitOnP (· == slash) r <;> rfl
  | cons b bs ih =>
      simp only [List.mem_cons, not_or] at h
      rw [List.cons_append, List.splitOnP_cons_eq_if_modifyHead, ih h.2,
        if_neg (by simpa using Ne.symm h.1), List.modifyHead_modifyHead]
      rfl

theorem not_mem_of_mem_split {bs s : Bytes} (h : s ∈ split bs) : slash ∉ s := by
  induction bs generalizing s with
  | nil =>
      obtain rfl := List.mem_singleton.mp h
      simp
  | cons b r ih =>
      rw [split] at h
      split at h
      · rcases List.mem_cons.mp h with rfl | h
        · simp
        · exact ih h
      · rename_i hb
        cases hr : split r with
        | nil => exact absurd hr (split_ne_nil r)
        | cons first rest =>
            rw [hr] at h ih
            rcases List.mem_cons.mp h with rfl | h
            · have hfirst : slash ∉ first := ih (by simp)
              simp [hfirst, Ne.symm hb]
            · exact ih (by simp [h])

variable {p dir name : Path}

/-! ### Joining -/

/-- A slash is put between the bytes of two paths, unless there is one, or nothing
stands before it. -/
theorem join_cases (dir : Path) (h : name.isAbsolute = false) :
    dir.bytes = [] ∧ dir.join name = name ∨
      dir.bytes ≠ [] ∧ ∃ above, (dir.bytes = above ∨ dir.bytes = above ++ [slash]) ∧
        (dir.join name).bytes = above ++ slash :: name.bytes := by
  unfold join
  rw [if_neg (by simp [h])]
  cases hlast : dir.bytes.getLast? with
  | none => exact .inl ⟨List.getLast?_eq_none_iff.mp hlast, rfl⟩
  | some last =>
      obtain ⟨above, habove⟩ := List.getLast?_eq_some_iff.mp hlast
      refine .inr ⟨by simp [habove], ?_⟩
      by_cases hslash : last = slash
      · subst hslash
        exact ⟨above, .inr habove, by simp [habove]⟩
      · exact ⟨dir.bytes, .inl rfl, by simp [hslash]⟩

/-- The segments of a join that stand for something are those of both paths. -/
theorem filterMap_segments_join {α : Type} {f : Bytes → Option α} (hf : f [] = none) (dir : Path)
    (h : name.isAbsolute = false) : (dir.join name).segments.filterMap f =
      dir.segments.filterMap f ++ name.segments.filterMap f := by
  rcases join_cases dir h with ⟨hdir, hjoin⟩ | ⟨-, above, hdir, hjoin⟩
  · have hsegments : dir.segments = [[]] := by simp [segments, hdir, split]
    simp [hjoin, hsegments, hf]
  · rw [segments, hjoin, split_append_slash, List.filterMap_append, segments, segments]
    rcases hdir with hdir | hdir
    · rw [hdir]
    · simp [hdir, split_append_slash, split, hf]

theorem isAbsolute_join (hdir : dir.bytes ≠ []) (h : name.isAbsolute = false) :
    (dir.join name).isAbsolute = dir.isAbsolute := by
  rcases join_cases dir h with ⟨hnil, -⟩ | ⟨-, above, habove, hjoin⟩
  · exact absurd hnil hdir
  · -- above a lone slash there is nothing, and yet it is what makes a path absolute
    cases above with
    | nil =>
        rcases habove with hnil | hroot
        · exact absurd hnil hdir
        · simp [isAbsolute, hjoin, hroot]
    | cons b r => rcases habove with hbytes | hbytes <;> simp [isAbsolute, hjoin, hbytes]

theorem head?_segments_join (hdir : dir.bytes ≠ []) (h : name.isAbsolute = false) :
    (dir.join name).segments.head? = dir.segments.head? := by
  rcases join_cases dir h with ⟨hnil, -⟩ | ⟨-, above, habove, hjoin⟩
  · exact absurd hnil hdir
  · cases hsplit : split above with
    | nil => exact absurd hsplit (split_ne_nil above)
    | cons first rest =>
        rcases habove with hbytes | hbytes <;>
          simp [segments, hjoin, hbytes, split_append_slash, hsplit]

theorem isAbsolute_of_start (h : p.start = []) : p.isAbsolute = false := by
  unfold start at h
  split at h
  · cases h
  · rename_i habsolute
    simpa using habsolute

/-- The components of a name, seen from a directory, follow those of the directory. -/
theorem components_join (dir : Path) (h : name.start = []) :
    (dir.join name).components = dir.components ++ name.components := by
  have habsolute := isAbsolute_of_start h
  have hsegments := filterMap_segments_join (f := component?) (by simp [component?]) dir habsolute
  by_cases hdir : dir.bytes = []
  · have hempty : dir.components = [] := by
      simp [components, start, isAbsolute, segments, hdir, split, component?, dot]
    rcases join_cases dir habsolute with ⟨-, hjoin⟩ | ⟨hne, -⟩
    · rw [hjoin, hempty, List.nil_append]
    · exact absurd hdir hne
  · have hstart : (dir.join name).start = dir.start := by
      simp only [start, isAbsolute_join hdir habsolute, head?_segments_join hdir habsolute]
    simp only [components, hstart, hsegments, h, List.nil_append, List.append_assoc]

/-! ### Names only -/

/-- A name that leads from a directory into it: not empty, no dots that stand for a
directory, and no slash. -/
structure Proper (name : Bytes) : Prop where
  ne_nil : name ≠ []
  ne_dot : name ≠ dot
  ne_dotDot : name ≠ dotDot
  slash_not_mem : slash ∉ name

theorem component?_eq_parent_iff {s : Bytes} : component? s = some .parent ↔ s = dotDot := by
  unfold component?
  split
  · rename_i h
    simp only [reduceCtorEq, false_iff]
    rintro rfl
    simp [dotDot, dot] at h
  · split <;> simp_all

theorem component?_ne_start (s : Bytes) :
    component? s ≠ some .root ∧ component? s ≠ some .current := by
  unfold component?
  split
  · simp
  · split <;> simp

theorem isPlainRelative_iff_normal : p.isPlainRelative = true ↔
    p.bytes ≠ [] ∧ ∀ c ∈ p.components, ∃ n, c = .normal n := by
  simp only [isPlainRelative, isEmpty, Bool.and_eq_true, List.all_eq_true]
  refine and_congr (by simp) (forall₂_congr fun c _ => ?_)
  cases c <;> simp

/-- A path of names only: not empty, without a slash or a dot in front, and nowhere with
two dots. -/
theorem isPlainRelative_iff : p.isPlainRelative = true ↔
    p.bytes ≠ [] ∧ p.start = [] ∧ dotDot ∉ p.segments := by
  rw [isPlainRelative_iff_normal]
  refine and_congr_right fun _ => ?_
  simp only [components, List.mem_append, List.mem_filterMap]
  constructor
  · intro h
    constructor
    · cases hstart : p.start with
      | nil => rfl
      | cons c cs =>
          obtain ⟨n, rfl⟩ := h c (by simp [hstart])
          unfold start at hstart
          split at hstart
          · cases hstart
          · split at hstart <;> cases hstart
    · intro hmem
      obtain ⟨n, hn⟩ := h .parent (.inr ⟨dotDot, hmem, component?_eq_parent_iff.mpr rfl⟩)
      cases hn
  · rintro ⟨hstart, hparent⟩ c (hc | ⟨s, hs, hc⟩)
    · simp [hstart] at hc
    · cases c with
      | normal n => exact ⟨n, rfl⟩
      | parent => exact absurd (component?_eq_parent_iff.mp hc ▸ hs) hparent
      | root => exact absurd hc (component?_ne_start s).1
      | current => exact absurd hc (component?_ne_start s).2

/-- The names that a path leads along, besides what it starts with. -/
def names (p : Path) : List Bytes := p.segments.filter fun s => s ≠ [] ∧ s ≠ dot

/-- A path of names only has no other components, and at least one. -/
theorem components_of_plain (h : p.isPlainRelative = true) :
    p.components = p.names.map .normal ∧ p.names ≠ [] ∧ ∀ n ∈ p.names, Proper n := by
  obtain ⟨hbytes, hstart, hparent⟩ := isPlainRelative_iff.mp h
  have hproper : ∀ n ∈ p.names, Proper n := by
    intro n hn
    simp only [names, List.mem_filter, decide_eq_true_eq] at hn
    exact ⟨hn.2.1, hn.2.2, fun heq => hparent (heq ▸ hn.1), not_mem_of_mem_split hn.1⟩
  refine ⟨?_, ?_, hproper⟩
  · rw [components, hstart, List.nil_append, names, ← List.filterMap_eq_map, List.filterMap_filter]
    refine List.filterMap_congr ?_
    intro s hs
    by_cases hdrop : s = [] ∨ s = dot
    · rcases hdrop with rfl | rfl <;> simp [component?]
    · have hne : s ≠ dotDot := fun heq => hparent (heq ▸ hs)
      simp only [not_or] at hdrop
      simp [component?, hdrop, hne]
  · -- the first segment is a name, for the path starts with neither slash nor dot
    cases hp : p.bytes with
    | nil => exact absurd hp hbytes
    | cons b r =>
        have habsolute := isAbsolute_of_start hstart
        simp only [start, habsolute, Bool.false_eq_true, if_false, ite_eq_right_iff] at hstart
        simp only [isAbsolute, hp, List.head?_cons, beq_eq_false_iff_ne, ne_eq,
          Option.some.injEq] at habsolute
        have hsegments : p.segments = (split r).modifyHead (b :: ·) := by
          rw [segments, hp, ← List.singleton_append, split_append_of_not_mem]
          · rfl
          · simpa using Ne.symm habsolute
        cases hr : split r with
        | nil => exact absurd hr (split_ne_nil r)
        | cons first rest =>
            rw [hr, List.modifyHead_cons] at hsegments
            rw [hsegments] at hstart
            have hdot : (b :: first) ≠ dot := by
              intro heq
              cases hstart (congrArg some heq)
            rw [names, hsegments]
            simp [hdot]

/-- From a directory, a path of names leads along these. -/
theorem components_join_of_plain (dir : Path) (h : name.isPlainRelative = true) :
    (dir.join name).components = dir.components ++ name.names.map .normal := by
  rw [components_join dir (isPlainRelative_iff.mp h).2.1, (components_of_plain h).1]

theorem components_join_eq_iff (dir : Path) {other : Path} (h : name.isPlainRelative = true)
    (h' : other.isPlainRelative = true) :
    (dir.join name).components = (dir.join other).components ↔ name.names = other.names := by
  rw [components_join_of_plain dir h, components_join_of_plain dir h', List.append_right_inj]
  exact (List.map_injective_iff.mpr fun _ _ => Component.normal.inj).eq_iff

/-! ### Paths of texts -/

/-- The bytes of a slash belong to no other character. -/
theorem slash_mem_encodeChar {c : Char} (h : slash ∈ String.utf8EncodeChar c) : c = '/' := by
  have hc : slash.toNat = c.toNat := Utf8.toNat_of_mem_encodeChar h (by decide)
  rw [← Char.ofNat_toNat c, ← hc]
  rfl

theorem split_encode (cs : List Char) : split (cs.flatMap String.utf8EncodeChar) =
    (cs.splitOn '/').map fun part => part.flatMap String.utf8EncodeChar := by
  unfold List.splitOn
  induction cs with
  | nil => rfl
  | cons c cs ih =>
      rw [List.flatMap_cons, List.splitOnP_cons_eq_if_modifyHead]
      by_cases hc : c = '/'
      · subst hc
        rw [show String.utf8EncodeChar '/' = [] ++ [slash] from rfl, List.append_assoc,
          List.singleton_append, split_append_slash, ih]
        rfl
      · rw [split_append_of_not_mem fun h => hc (slash_mem_encodeChar h), ih]
        cases List.splitOnP (· == '/') cs <;> simp [hc]

/-- The segments of a text that is taken for a path are those between its slashes. -/
theorem segments_ofText (s : String) : (ofText s).segments =
    (s.toList.splitOn '/').map fun part => Utf8.encode (.ofList part) := by
  rw [segments, ofText, Utf8.encode, split_encode]
  simp only [Utf8.encode, String.toList_ofList]

theorem isAbsolute_ofText (s : String) :
    (ofText s).isAbsolute = true ↔ s.toList.head? = some '/' := by
  rw [isAbsolute, ofText, Utf8.encode, beq_iff_eq]
  cases s.toList with
  | nil => simp
  | cons c cs =>
      rw [List.flatMap_cons, List.head?_cons, Option.some.injEq]
      constructor
      · intro h
        cases hc : String.utf8EncodeChar c with
        | nil => exact absurd hc String.utf8EncodeChar_ne_nil
        | cons b r =>
            rw [hc, List.cons_append, List.head?_cons, Option.some.injEq] at h
            exact slash_mem_encodeChar (by simp [hc, h])
      · rintro rfl
        rfl

theorem eq_of_encode_ofList (part other : List Char)
    (h : Utf8.encode (.ofList part) = Utf8.encode (.ofList other)) : part = other := by
  simpa using congrArg String.toList (Utf8.encode_injective h)

/-- A text is a path of names only unless it is empty, starts with a slash, or has a dot
for its first segment or two dots for any. -/
theorem isPlainRelative_ofText (s : String) : (ofText s).isPlainRelative = true ↔
    ¬(s = "" ∨ s.toList.head? = some '/' ∨ (s.toList.splitOn '/').head? = some ['.'] ∨
      ['.', '.'] ∈ s.toList.splitOn '/') := by
  have hempty : (ofText s).bytes = [] ↔ s = "" := by
    show Utf8.encode s = Utf8.encode "" ↔ s = ""
    exact Utf8.encode_injective.eq_iff
  have hdot : (ofText s).segments.head? = some dot ↔ (s.toList.splitOn '/').head? = some ['.'] := by
    rw [segments_ofText, List.head?_map, Option.map_eq_some_iff]
    constructor
    · rintro ⟨part, hpart, hdot⟩
      rw [hpart, eq_of_encode_ofList part ['.'] hdot]
    · exact fun h => ⟨_, h, rfl⟩
  have hparent : dotDot ∈ (ofText s).segments ↔ ['.', '.'] ∈ s.toList.splitOn '/' := by
    rw [segments_ofText, List.mem_map]
    constructor
    · rintro ⟨part, hpart, hdots⟩
      rwa [eq_of_encode_ofList part ['.', '.'] hdots] at hpart
    · exact fun h => ⟨_, h, rfl⟩
  have hstart : (ofText s).start = [] ↔
      ¬(s.toList.head? = some '/' ∨ (s.toList.splitOn '/').head? = some ['.']) := by
    rw [start, ← isAbsolute_ofText, ← hdot]
    split
    · rename_i habsolute
      simp [habsolute]
    · rename_i habsolute
      split <;> rename_i hhead <;> simp [habsolute, hhead]
  rw [isPlainRelative_iff, hstart, hparent, ne_eq, hempty]
  simp only [not_or, and_assoc]

end Path

end SourceDesk
