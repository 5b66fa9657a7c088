import Mathlib.Data.List.Forall2
import SourceDesk.Json.Codec
import SourceDesk.Proofs.Json.Settle
import SourceDesk.Proofs.Json.Tree

/-! Records, read from trees: which values a tree gives to the fields of a record, and that a
record is read exactly from the trees that give each field a value it can read or do without. -/
namespace SourceDesk.Json

/-- The values of fields that a tree gives. An object gives them in any order, with no key of a
field twice, and may have other members; a list gives them in the order of the fields, and may
end early. -/
inductive Tree.HasFields (keys : List String) : List (Option Tree) → Tree → Prop
  | members {ms vs} : List.Forall₂ (fun k v => values ms k = Option.toList v) keys vs →
    HasFields keys vs (.object ms)
  | inOrder {ts n} : ts.length + n = keys.length →
    HasFields keys (ts.map some ++ List.replicate n none) (.array ts)

/-- The values of fields that a tree gives when it is settled: the last value counts where a key
of an object stands repeatedly. -/
inductive Tree.SettlesFields (keys : List String) : List (Option Tree) → Tree → Prop
  | members {ms} : SettlesFields keys (keys.map fun k => (values ms k).getLast?) (.object ms)
  | inOrder {ts n} : ts.length + n = keys.length →
    SettlesFields keys (ts.map some ++ List.replicate n none) (.array ts)

variable {ks : List String} {t : Tree} {e : Excess} {α β : Type}

theorem hasFields_object_iff {ms : List (String × Tree)} {vs : List (Option Tree)} :
    (Tree.object ms).HasFields ks vs ↔
      List.Forall₂ (fun k v => values ms k = Option.toList v) ks vs := by
  refine ⟨fun h => ?_, .members⟩
  cases h with
  | members hvs => exact hvs

theorem hasFields_array_iff {ts : List Tree} {vs : List (Option Tree)} :
    (Tree.array ts).HasFields ks vs ↔
      ∃ n, ts.length + n = ks.length ∧ vs = ts.map some ++ List.replicate n none := by
  constructor
  · intro h
    cases h with
    | inOrder hn => exact ⟨_, hn, rfl⟩
  · rintro ⟨n, hn, rfl⟩
    exact .inOrder hn

theorem not_hasFields_null {vs : List (Option Tree)} : ¬Tree.null.HasFields ks vs := by
  intro h
  cases h

/-- A settled tree gives the settled values. -/
theorem hasFields_settle_iff {ws : List (Option Tree)} :
    t.settle.HasFields ks ws ↔
      ∃ vs, t.SettlesFields ks vs ∧ ws = vs.map (Option.map Tree.settle) := by
  cases t with
  | object ms =>
      have htoList {o : Option Tree} {w : Option Tree} : o.toList = w.toList ↔ o = w := by
        cases o <;> cases w <;> simp
      simp only [Tree.settle, hasFields_object_iff, Tree.values_settle, htoList]
      rw [← List.forall₂_map_left_iff, List.forall₂_eq_eq_eq]
      constructor
      · rintro rfl
        exact ⟨_, .members, by simp⟩
      · rintro ⟨_, ⟨⟩, rfl⟩
        simp
  | array ts =>
      simp only [Tree.settle, Tree.settleItems_eq, hasFields_array_iff, List.length_map]
      constructor
      · rintro ⟨n, hn, rfl⟩
        exact ⟨_, .inOrder hn, by simp⟩
      · rintro ⟨_, h, rfl⟩
        cases h with
        | inOrder hn => exact ⟨_, hn, by simp [Function.comp_def]⟩
  | _ =>
      constructor
      · intro h
        cases h
      · rintro ⟨_, h, -⟩
        cases h

theorem map_settle_eq_cons_iff {w : Tree} {vs ws : List (Option Tree)} :
    vs.map (Option.map Tree.settle) = some w :: ws ↔
      ∃ u us, vs = some u :: us ∧ u.settle = w ∧ us.map (Option.map Tree.settle) = ws := by
  rw [List.map_eq_cons_iff]
  constructor
  · rintro ⟨v, us, rfl, hv, hus⟩
    obtain ⟨u, rfl, hu⟩ := Option.map_eq_some_iff.mp hv
    exact ⟨u, us, rfl, hu, hus⟩
  · rintro ⟨u, us, rfl, rfl, hus⟩
    exact ⟨some u, us, rfl, rfl, hus⟩

/-- Values of which none is given twice are the settled ones. -/
theorem Tree.HasFields.settles {vs : List (Option Tree)} (h : t.HasFields ks vs) :
    t.SettlesFields ks vs := by
  cases h with
  | @members ms vs hvs =>
      have heq : ks.map (fun k => (values ms k).getLast?) = vs := by
        rw [← List.forall₂_eq_eq_eq, List.forall₂_map_left_iff]
        refine hvs.imp fun k v hv => ?_
        rw [hv]
        cases v <;> rfl
      exact heq ▸ .members
  | inOrder hn => exact .inOrder hn

/-! ### Members in any order -/

/-- An object of the given members, in any order. -/
def Tree.IsObject (t : Tree) (ms : List (String × Tree)) : Prop :=
  ∃ ns, t = .object ns ∧ ns.Perm ms

theorem Tree.IsObject.hasFields {ms : List (String × Tree)} {vs : List (Option Tree)}
    (h : t.IsObject ms) (hms : List.Forall₂ (fun k v => values ms k = Option.toList v) ks vs) :
    t.HasFields ks vs := by
  obtain ⟨ns, rfl, hperm⟩ := h
  refine .members (hms.imp fun k v hv => ?_)
  have hvalues : (values ns k).Perm v.toList := hv ▸ values_perm hperm
  cases v with
  | none => exact hvalues.eq_nil
  | some t => exact hvalues.eq_singleton

theorem depthOfMembers_le {ms : List (String × Tree)} {n : Nat} (h : ∀ m ∈ ms, m.2.depth ≤ n) :
    depthOfMembers ms ≤ n := by
  induction ms with
  | nil => exact Nat.zero_le n
  | cons m ms ih =>
      exact Nat.max_le.mpr ⟨h m List.mem_cons_self, ih fun m' hm => h m' (List.mem_cons_of_mem m hm)⟩

theorem depthOfItems_le {ts : List Tree} {n : Nat} (h : ∀ t ∈ ts, t.depth ≤ n) :
    depthOfItems ts ≤ n := by
  induction ts with
  | nil => exact Nat.zero_le n
  | cons t ts ih =>
      exact Nat.max_le.mpr ⟨h t List.mem_cons_self, ih fun u hu => h u (List.mem_cons_of_mem t hu)⟩

theorem Tree.IsObject.depth_le {ms : List (String × Tree)} {n : Nat} (h : t.IsObject ms)
    (hms : ∀ m ∈ ms, m.2.depth ≤ n) : t.depth ≤ n + 1 := by
  obtain ⟨ns, rfl, hperm⟩ := h
  exact Nat.succ_le_succ (depthOfMembers_le fun m hm => hms m (hperm.mem_iff.mp hm))

/-! ### Members that may be left out -/

/-- The members that have a value. -/
def present (ms : List (String × Option Tree)) : List (String × Tree) :=
  ms.filterMap fun m => m.2.map fun t => (m.1, t)

section

variable {k : String} {o : Option Tree} {ms : List (String × Option Tree)}

theorem values_present_cons :
    values (present ((k, o) :: ms)) k = o.toList ++ values (present ms) k := by
  cases o <;> simp [present]

theorem values_present_cons_other {key : String} (h : k ≠ key) :
    values (present ((k, o) :: ms)) key = values (present ms) key := by
  cases o <;> simp [present, values_cons_other h]

theorem values_present_eq_nil (h : k ∉ ms.map Prod.fst) : values (present ms) k = [] := by
  refine values_eq_nil fun m hm => ?_
  obtain ⟨⟨key, o⟩, hmem, hm⟩ := List.mem_filterMap.mp hm
  obtain ⟨t, -, rfl⟩ := Option.map_eq_some_iff.mp hm
  rintro rfl
  exact h (List.mem_map_of_mem hmem)

theorem values_present (hms : (ms.map Prod.fst).Nodup) (h : (k, o) ∈ ms) :
    values (present ms) k = o.toList := by
  induction ms with
  | nil => cases h
  | cons m ms ih =>
      obtain ⟨key, o'⟩ := m
      obtain ⟨hkey, hms⟩ := List.nodup_cons.mp hms
      rcases List.mem_cons.mp h with heq | h
      · obtain ⟨rfl, rfl⟩ := Prod.mk.inj heq
        rw [values_present_cons, values_present_eq_nil hkey, List.append_nil]
      · have hk : k ∈ ms.map Prod.fst := List.mem_map_of_mem (f := Prod.fst) h
        have hne : key ≠ k := fun heq => hkey (heq ▸ hk)
        rw [values_present_cons_other hne, ih hms h]

/-- An object gives its fields the values that are present in it. -/
theorem Tree.IsObject.hasFields_present (h : t.IsObject (present ms))
    (hms : (ms.map Prod.fst).Nodup) : t.HasFields (ms.map Prod.fst) (ms.map Prod.snd) := by
  refine h.hasFields ?_
  rw [List.forall₂_map_left_iff, List.forall₂_map_right_iff, List.forall₂_same]
  exact fun m hm => values_present hms hm

end

namespace Fields

/-- The keys of the fields. -/
def keys : {α : Type} → Fields α → List String
  | _, .done => []
  | _, .field k _ _ rest => k :: rest.keys

/-- The record of the values that its fields are given. -/
def Reads (e : Excess) : {α : Type} → Fields α → List (Option Tree) → α → Prop
  | _, .done, vs, _ => vs = []
  | _, .field _ d absent rest, vs, (a, b) => ∃ v ws, vs = v :: ws ∧
      (match v with
        | some t => d.ofTree e t = .ok a
        | none => absent = some a) ∧
      Reads e rest ws b

@[simp] theorem reads_done {vs : List (Option Tree)} {u : Unit} :
    Fields.done.Reads e vs u ↔ vs = [] := Iff.rfl

/-- A field that may not be absent has its value. -/
@[simp] theorem reads_required {k : String} {d : Decoder α} {rest : Fields β}
    {vs : List (Option Tree)} {r : α × β} :
    (Fields.field k d none rest).Reads e vs r ↔
      ∃ t ws, vs = some t :: ws ∧ d.ofTree e t = .ok r.1 ∧ rest.Reads e ws r.2 := by
  constructor
  · rintro ⟨v, ws, rfl, hread, hreads⟩
    cases v with
    | none => cases hread
    | some t => exact ⟨t, ws, rfl, hread, hreads⟩
  · rintro ⟨t, ws, rfl, hread, hreads⟩
    exact ⟨some t, ws, rfl, hread, hreads⟩

@[simp] theorem length_keys : {α : Type} → (f : Fields α) → f.keys.length = f.length
  | _, .done => rfl
  | _, .field _ _ _ rest => by simp [keys, length, length_keys rest]

/-! ### From the members of an object -/

/-- What the members with the key of a field do to its slot: nothing if there are none, else a
single one fills it if it is empty. -/
def Fills (e : Excess) (d : Decoder α) (slot : Option α) (vs : List Tree) (slot' : Option α) : Prop :=
  vs = [] ∧ slot' = slot ∨ slot = none ∧ ∃ t a, vs = [t] ∧ d.ofTree e t = .ok a ∧ slot' = some a

theorem fills_cons {d : Decoder α} {a : α} {vs : List Tree} {slot' : Option α}
    (h : d.ofTree e t = .ok a) : Fills e d none (t :: vs) slot' ↔ Fills e d (some a) vs slot' := by
  constructor
  · rintro (⟨hnil, -⟩ | ⟨-, t', a', hvs, hread, rfl⟩)
    · cases hnil
    · obtain ⟨rfl, rfl⟩ := List.cons.inj hvs
      exact .inl ⟨rfl, congrArg some (Except.ok.inj (hread.symm.trans h))⟩
  · rintro (⟨rfl, rfl⟩ | ⟨hslot, -⟩)
    · exact .inr ⟨rfl, t, a, rfl, h, rfl⟩
    · cases hslot

theorem member_unknown : {α : Type} → {f : Fields α} → {key : String} → key ∉ f.keys →
    (slots : f.Slots) → f.member key slots = .unknown
  | _, .done, _, _, _ => rfl
  | _, .field k _ _ rest, key, h, slots => by
      rw [keys, List.mem_cons, not_or] at h
      simp only [member, h.1, if_false, member_unknown h.2 slots.2]

/-- The members fill the slot of the first field and those of the rest on their own. -/
theorem takeMembers_field {k : String} {d : Decoder α} {absent : Option α} {rest : Fields β}
    (hk : k ∉ rest.keys) {ms : List (String × Tree)} {slot slot' : Option α}
    {slots slots' : rest.Slots} :
    (Fields.field k d absent rest).takeMembers e (slot, slots) ms = .ok (slot', slots') ↔
      Fills e d slot (values ms k) slot' ∧ rest.takeMembers e slots ms = .ok slots' := by
  induction ms generalizing slot slots with
  | nil =>
      constructor
      · intro h
        obtain ⟨rfl, rfl⟩ := Prod.mk.inj (Except.ok.inj h)
        exact ⟨.inl ⟨rfl, rfl⟩, rfl⟩
      · rintro ⟨⟨-, rfl⟩ | ⟨-, t, a, hnil, -⟩, hslots⟩
        · obtain rfl := Except.ok.inj hslots
          rfl
        · cases hnil
  | cons m ms ih =>
      obtain ⟨key, t⟩ := m
      by_cases hkey : key = k
      · subst hkey
        rw [values_cons_same]
        -- a member of this field is unknown to the rest
        have hrest : rest.takeMembers e slots ((key, t) :: ms) = rest.takeMembers e slots ms := by
          rw [takeMembers, member_unknown hk]
        rw [hrest]
        cases slot with
        | some a => simp [takeMembers, member, Fills]
        | none =>
            cases hread : d.ofTree e t with
            | error c => simp [takeMembers, member, hread, Except.map, Fills]
            | ok a =>
                simp only [takeMembers, member, hread, Except.map, if_true]
                rw [ih, fills_cons hread]
      · rw [values_cons_other hkey]
        simp only [takeMembers, member, hkey, if_false]
        cases rest.member key slots with
        | unknown => exact ih
        | repeated => simp
        | fills direct ofTree =>
            dsimp only
            cases ofTree e t with
            | error c => simp [Except.map]
            | ok slots => exact ih

theorem takeMembers_done (slots : Fields.done.Slots) (ms : List (String × Tree)) :
    Fields.done.takeMembers e slots ms = .ok slots := by
  induction ms with
  | nil => rfl
  | cons m ms ih => exact ih

theorem finish_field_iff {k : String} {d : Decoder α} {absent slot : Option α} {rest : Fields β}
    {slots : rest.Slots} {a : α} {b : β} :
    (Fields.field k d absent rest).finish (slot, slots) = .ok (a, b) ↔
      slot.or absent = some a ∧ rest.finish slots = .ok b := by
  simp only [finish]
  cases slot.or absent with
  | none => simp
  | some a' => cases rest.finish slots <;> simp [Except.map]

/-- A field finds its value in its slot, or does without. -/
theorem exists_fills_iff {d : Decoder α} {absent : Option α} {vs : List Tree} {a : α} :
    (∃ slot, Fills e d none vs slot ∧ slot.or absent = some a) ↔
      ∃ v, vs = Option.toList v ∧ match v with
        | some t => d.ofTree e t = .ok a
        | none => absent = some a := by
  constructor
  · rintro ⟨slot, ⟨rfl, rfl⟩ | ⟨-, t, a', rfl, hread, rfl⟩, hslot⟩
    · exact ⟨none, rfl, by simpa using hslot⟩
    · obtain rfl : a' = a := by simpa using hslot
      exact ⟨some t, rfl, hread⟩
  · rintro ⟨v, rfl, hv⟩
    cases v with
    | none => exact ⟨none, .inl ⟨rfl, rfl⟩, by simpa using hv⟩
    | some t => exact ⟨some a, .inr ⟨rfl, t, a, rfl, hv, rfl⟩, rfl⟩

/-- The members of an object make a record if each field finds at most one value among them. -/
theorem exists_takeMembers_iff : {α : Type} → {f : Fields α} → f.keys.Nodup →
    (ms : List (String × Tree)) → (a : α) →
    ((∃ slots, f.takeMembers e f.noSlots ms = .ok slots ∧ f.finish slots = .ok a) ↔
      ∃ vs, List.Forall₂ (fun k v => values ms k = Option.toList v) f.keys vs ∧ f.Reads e vs a)
  | _, .done, _, ms, () => by
      constructor
      · rintro -
        exact ⟨[], .nil, rfl⟩
      · rintro -
        exact ⟨(), takeMembers_done () ms, rfl⟩
  | _, .field k d absent rest, hnodup, ms, (a, b) => by
      obtain ⟨hk, hrest⟩ := List.nodup_cons.mp hnodup
      have ih := exists_takeMembers_iff hrest ms b
      constructor
      · rintro ⟨⟨slot, slots⟩, htake, hfinish⟩
        obtain ⟨hfills, htake⟩ := (takeMembers_field hk).mp htake
        obtain ⟨hslot, hfinish⟩ := finish_field_iff.mp hfinish
        obtain ⟨v, hv, hread⟩ := exists_fills_iff.mp ⟨slot, hfills, hslot⟩
        obtain ⟨vs, hvs, hreads⟩ := ih.mp ⟨slots, htake, hfinish⟩
        exact ⟨v :: vs, .cons hv hvs, v, vs, rfl, hread, hreads⟩
      · rintro ⟨_, hvs, v, vs, rfl, hread, hreads⟩
        obtain ⟨hv, hvs⟩ := List.forall₂_cons.mp hvs
        obtain ⟨slot, hfills, hslot⟩ := exists_fills_iff.mpr ⟨v, hv, hread⟩
        obtain ⟨slots, htake, hfinish⟩ := ih.mpr ⟨vs, hvs, hreads⟩
        exact ⟨(slot, slots), (takeMembers_field hk).mpr ⟨hfills, htake⟩,
          finish_field_iff.mpr ⟨hslot, hfinish⟩⟩

/-! ### From the items of a list -/

/-- The items of a list make a record if they are values of its first fields and the others may
be absent. -/
theorem takeValues_iff (wanted : String) : {α : Type} → (f : Fields α) → (taken : Nat) →
    (ts : List Tree) → (a : α) → (f.takeValues wanted e taken ts = .ok (a, []) ↔
      ∃ n, ts.length + n = f.length ∧ f.Reads e (ts.map some ++ List.replicate n none) a)
  | _, .done, _, ts, () => by
      simp [takeValues, length, Reads]
  -- with no item left, this field and the rest must do without
  | _, .field k d absent rest, taken, [], (a, b) => by
      have ih := takeValues_iff wanted rest (taken + 1) [] b
      constructor
      · intro h
        simp only [takeValues] at h
        cases absent with
        | none => cases h
        | some a' =>
            dsimp only at h
            obtain ⟨⟨b', left⟩, hrest, heq⟩ := map_eq_ok_iff.mp h
            obtain ⟨heq, rfl⟩ := Prod.mk.inj heq
            obtain ⟨rfl, rfl⟩ := Prod.mk.inj heq
            obtain ⟨n, hn, hreads⟩ := ih.mp hrest
            exact ⟨n + 1, by simpa [length] using hn, none, _, rfl, rfl, hreads⟩
      · rintro ⟨n, hn, v, vs, hvs, hread, hreads⟩
        obtain ⟨n, rfl⟩ : ∃ m, n = m + 1 := ⟨n - 1, by simp [length] at hn; omega⟩
        obtain ⟨rfl, rfl⟩ := List.cons.inj hvs
        obtain rfl : absent = some a := hread
        simp only [takeValues]
        rw [ih.mpr ⟨n, by simpa [length] using hn, hreads⟩]
        rfl
  | _, .field k d absent rest, taken, t :: ts, (a, b) => by
      have ih := takeValues_iff wanted rest (taken + 1) ts b
      constructor
      · intro h
        simp only [takeValues] at h
        split at h
        · cases h
        rename_i a' hread
        obtain ⟨⟨b', left⟩, hrest, heq⟩ := map_eq_ok_iff.mp h
        obtain ⟨heq, rfl⟩ := Prod.mk.inj heq
        obtain ⟨rfl, rfl⟩ := Prod.mk.inj heq
        obtain ⟨n, hn, hreads⟩ := ih.mp hrest
        exact ⟨n, by simp [length]; omega, some t, _, rfl, hread, hreads⟩
      · rintro ⟨n, hn, v, vs, hvs, hread, hreads⟩
        obtain ⟨rfl, rfl⟩ := List.cons.inj hvs
        replace hread : d.ofTree e t = .ok a := hread
        simp only [takeValues, hread]
        rw [ih.mpr ⟨n, by simp [length] at hn; omega, hreads⟩]
        rfl

/-- A record is read from the trees that give its fields values that make it. -/
theorem ofTree_eq_ok_iff {f : Fields α} (hnodup : f.keys.Nodup) {name : String} {a : α} :
    f.ofTree name e t = .ok a ↔ ∃ vs, t.HasFields f.keys vs ∧ f.Reads e vs a := by
  cases t with
  | object ms =>
      simp only [hasFields_object_iff]
      rw [← exists_takeMembers_iff hnodup ms a]
      simp only [ofTree]
      cases f.takeMembers e f.noSlots ms <;> simp
  | array ts =>
      have htake := takeValues_iff (e := e) (listForm name f.length) f 0 ts a
      simp only [hasFields_array_iff, length_keys, ofTree]
      constructor
      · intro h
        split at h
        · cases h
        · rename_i a' hread
          obtain rfl := Except.ok.inj h
          obtain ⟨n, hn, hreads⟩ := htake.mp hread
          exact ⟨_, ⟨n, hn, rfl⟩, hreads⟩
        · cases h
      · rintro ⟨_, ⟨n, hn, rfl⟩, hreads⟩
        rw [htake.mpr ⟨n, hn, hreads⟩]
  | _ =>
      constructor
      · intro h
        cases h
      · rintro ⟨_, h, -⟩
        cases h

theorem decoder_ofTree_iff {f : Fields α} {name : String} {make : α → β} {b : β} :
    (f.decoder name make).ofTree e t = .ok b ↔
      ∃ a, f.ofTree ("struct " ++ name) e t = .ok a ∧ make a = b :=
  map_eq_ok_iff

end Fields

/-! ### Single values -/

namespace Decoder

variable {d : Decoder α}

theorem text_ofTree_iff {s : String} : text.ofTree e t = .ok s ↔ t = .text s := by
  cases t <;> simp [text, named]

theorem count_ofTree_iff {n : UInt64} :
    count.ofTree e t = .ok n ↔ ∃ k, t = .number (.nat k) ∧ UInt64.ofNat k = n := by
  cases t with
  | number m => cases m <;> simp [count, countOf]
  | null => simp [count]
  | boolean b => simp [count]
  | text s => simp [count]
  | array ts => simp [count]
  | object ms => simp [count]

theorem optional_ofTree_iff {o : Option α} :
    d.optional.ofTree e t = .ok o ↔
      match o with
      | none => t = .null
      | some a => t ≠ .null ∧ d.ofTree e t = .ok a := by
  have hmap (ht : t ≠ .null) : d.optional.ofTree e t = (d.ofTree e t).map some := by
    cases t with
    | null => exact absurd rfl ht
    | _ => rfl
  by_cases ht : t = .null
  · subst ht
    cases o <;> simp [optional]
  · rw [hmap ht, map_eq_ok_iff]
    cases o <;> simp [ht]

theorem list_ofTree_iff {as : List α} :
    d.list.ofTree e t = .ok as ↔
      ∃ ts, t = .array ts ∧ List.Forall₂ (fun t a => d.ofTree e t = .ok a) ts as := by
  have hitems (ts : List Tree) :
      d.ofTrees e ts = .ok as ↔ List.Forall₂ (fun t a => d.ofTree e t = .ok a) ts as := by
    induction ts generalizing as with
    | nil => simp [ofTrees, List.forall₂_nil_left_iff, eq_comm]
    | cons t ts ih =>
        rw [List.forall₂_cons_left_iff, ofTrees]
        cases d.ofTree e t with
        | error c => simp
        | ok a =>
            simp only [map_eq_ok_iff, ih]
            constructor
            · rintro ⟨as, has, rfl⟩
              exact ⟨a, as, rfl, has, rfl⟩
            · rintro ⟨b, bs, hb, hbs, rfl⟩
              exact ⟨bs, hbs, by rw [Except.ok.inj hb]⟩
  cases t <;> simp [list, hitems]

/-- Any value is read, and settled, from the texts that spell it, if it is not nested too deep. -/
theorem free_decode_eq_ok_iff {text : Bytes} {u : Tree} :
    free.decode text = .ok u ↔ ∃ t : Tree, t.SpelledIn text ∧ t.depth ≤ maxDepth ∧ t.settle = u := by
  simp only [← and_assoc, ← exists_readTree_iff (s := text) (Nat.le_add_right _ 2)]
  simp only [← readEnd_eq_ok_iff, decode, free, treeFuel]
  cases readTree (2 * text.length + 2) maxDepth text with
  | error f => simp [Except.map]
  | ok read =>
      obtain ⟨t, r⟩ := read
      cases hend : readEnd r <;> simp [Except.map, hend]

end Decoder

/-! ### Values that may be missing -/

section

variable {form : α → Tree → Prop} {o : Option α} {said : Option Tree} {d : Decoder α}

/-- What is said about a value that may be missing: if it is, nothing at all or null. -/
def Says (form : α → Tree → Prop) : Option α → Option Tree → Prop
  | none, said => said = none ∨ said = some .null
  | some a, said => ∃ t, said = some t ∧ form a t

/-- A field for a value that may be missing takes what is said about it. -/
theorem Says.reads (hnull : ∀ a, ¬form a .null)
    (hform : ∀ a t, form a t → d.ofTree e t = .ok a) : Says form o said →
    match said with
    | some t => d.optional.ofTree e t = .ok o
    | none => some none = some o := by
  intro h
  cases o with
  | none => rcases h with rfl | rfl <;> rfl
  | some a =>
      obtain ⟨t, rfl, ht⟩ := h
      refine Decoder.optional_ofTree_iff.mpr ⟨?_, hform a t ht⟩
      rintro rfl
      exact hnull a ht

end

end SourceDesk.Json
