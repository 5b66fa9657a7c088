import SourceDesk.Proofs.Storage.FileTree
import SourceDesk.Storage.Disk

/-! A disk is a file tree. Whatever is done to it, a directory stays one and nothing goes
away, so that a path that leads somewhere still does; and along names alone, two paths from
one directory come to the same place only if their names agree. -/
namespace SourceDesk.Disk

variable {d d' d'' : Disk} {place at_ : Place} {ns ms : List Bytes} {data kept : Bytes}
variable {p q dir name : Path}

/-! ### Entries -/

theorem entry?_put {e : Entry} (hplace : place ≠ []) (other : Place) :
    entry? (d.put place e) other = if other = place then some e else d.entry? other := by
  by_cases hroot : other = []
  · subst hroot
    unfold entry?
    simp [Ne.symm hplace]
  · unfold entry? put
    rw [if_neg hroot, if_neg hroot]
    cases hlookup : d.entries.lookup place with
    | none => simpa using lookup_concat hlookup
    | some old =>
        have hsome : (d.entries.lookup place).isSome := by simp [hlookup]
        by_cases hother : other = place
        · subst hother
          simp [lookup_map_self hsome]
        · simp [hother, lookup_map_of_ne hother]

theorem home_put {e : Entry} : (d.put place e).home = d.home := by
  unfold put
  split <;> rfl

/-- What every change of a disk keeps: directories, and that there is something. -/
structure Grows (d d' : Disk) : Prop where
  home : d'.home = d.home
  directory : ∀ place, d.entry? place = some .directory → d'.entry? place = some .directory
  isSome : ∀ place, (d.entry? place).isSome → (d'.entry? place).isSome

/-- What new directories keep: all that is there. -/
structure Extends (d d' : Disk) : Prop where
  home : d'.home = d.home
  entry : ∀ place e, d.entry? place = some e → d'.entry? place = some e

theorem Extends.refl (d : Disk) : d.Extends d := ⟨rfl, fun _ _ h => h⟩

theorem Extends.trans (h : d.Extends d') (h' : d'.Extends d'') : d.Extends d'' :=
  ⟨h'.home.trans h.home, fun place e he => h'.entry place e (h.entry place e he)⟩

theorem Extends.grows (h : d.Extends d') : d.Grows d' := by
  refine ⟨h.home, fun place => h.entry place _, ?_⟩
  intro place hsome
  obtain ⟨e, he⟩ := Option.isSome_iff_exists.mp hsome
  simp [h.entry place e he]

theorem extends_put {e : Entry} (hplace : place ≠ []) (h : d.entry? place = none) :
    d.Extends (d.put place e) := by
  refine ⟨home_put, fun other old hold => ?_⟩
  rw [entry?_put hplace, if_neg, hold]
  rintro rfl
  rw [h] at hold
  cases hold

theorem grows_put_file (hplace : place ≠ []) (h : d.entry? place ≠ some .directory) :
    d.Grows (d.put place (.file data)) := by
  refine ⟨home_put, ?_, ?_⟩
  · intro other hother
    rw [entry?_put hplace, if_neg, hother]
    rintro rfl
    exact h hother
  · intro other hother
    rw [entry?_put hplace]
    split
    · rfl
    · exact hother

/-! ### Ways -/

theorem walk_append (d : Disk) (at_ : Place) (ns ms : List Bytes) :
    d.walk at_ (ns ++ ms) = (d.walk at_ ns).bind fun mid => d.walk mid ms := by
  induction ns generalizing at_ with
  | nil => rfl
  | cons n ns ih =>
      simp only [List.cons_append, walk]
      cases d.entry? at_ with
      | none => rfl
      | some e =>
          cases e with
          | file data => rfl
          | directory =>
              simp only
              split
              · exact ih _
              split
              · exact ih _
              split
              · rfl
              split
              · rfl
              · exact ih _

/-- One step down. -/
theorem walk_name {n : Bytes} (hdirectory : d.entry? at_ = some .directory) (hdot : n ≠ Path.dot)
    (hdots : n ≠ Path.dotDot) (hlength : ¬maxName < n.length)
    (hentry : (d.entry? (at_ ++ [n])).isSome) : d.walk at_ [n] = .ok (at_ ++ [n]) := by
  simp [walk, hdirectory, hdot, hdots, hlength, Option.isSome_iff_ne_none.mp hentry]

theorem Grows.walk (h : d.Grows d') (hw : d.walk at_ ns = .ok place) :
    d'.walk at_ ns = .ok place := by
  induction ns generalizing at_ with
  | nil => exact hw
  | cons n ns ih =>
      simp only [Disk.walk] at hw ⊢
      cases he : d.entry? at_ with
      | none => simp [he] at hw
      | some e =>
          cases e with
          | file data => simp [he] at hw
          | directory =>
              simp only [he] at hw
              simp only [h.directory at_ he]
              split at hw
              · rename_i hdot
                rw [if_pos hdot]
                exact ih hw
              rename_i hdot
              rw [if_neg hdot]
              split at hw
              · rename_i hdots
                rw [if_pos hdots]
                exact ih hw
              rename_i hdots
              rw [if_neg hdots]
              split at hw
              · cases hw
              rename_i hlength
              rw [if_neg hlength]
              split at hw
              · cases hw
              rename_i hnone
              rw [Option.isNone_iff_eq_none, ← ne_eq, ← Option.isSome_iff_ne_none] at hnone
              have hsome : (d'.entry? (at_ ++ [n])).isSome := h.isSome _ hnone
              rw [if_neg (by simpa using Option.isSome_iff_ne_none.mp hsome)]
              exact ih hw

/-- A way along names goes down all the time. -/
theorem walk_names (hns : Path.dotDot ∉ ns) (hw : d.walk at_ ns = .ok place) :
    place = at_ ++ ns.filter (· ≠ Path.dot) := by
  induction ns generalizing at_ with
  | nil => simpa using (Except.ok.inj hw).symm
  | cons n ns ih =>
      simp only [List.mem_cons, not_or] at hns
      simp only [walk] at hw
      cases he : d.entry? at_ with
      | none => simp [he] at hw
      | some e =>
          cases e with
          | file data => simp [he] at hw
          | directory =>
              simp only [he] at hw
              split at hw
              · rename_i hdot
                rw [ih hns.2 hw]
                simp [hdot]
              rename_i hdot
              rw [if_neg (Ne.symm hns.1)] at hw
              split at hw
              · cases hw
              split at hw
              · cases hw
              rw [ih hns.2 hw]
              simp [hdot]

/-! ### Paths -/

theorem steps_join (dir : Path) (h : name.isAbsolute = false) :
    steps (dir.join name) = steps dir ++ steps name := by
  have hsegments := Path.filterMap_segments_join (f := Option.guard (· ≠ ([] : Bytes))) (by simp)
    dir h
  rwa [List.filterMap_eq_filter] at hsegments

theorem base_join (d : Disk) (dir : Path) (h : name.isAbsolute = false) :
    d.base (dir.join name) = d.base dir := by
  by_cases hdir : dir.bytes = []
  · rcases Path.join_cases dir h with ⟨-, hjoin⟩ | ⟨hne, -⟩
    · have hempty : dir.isAbsolute = false := by simp [Path.isAbsolute, hdir]
      rw [hjoin, base, base, h, hempty]
    · exact absurd hdir hne
  · rw [base, Path.isAbsolute_join hdir h, base]

theorem names_eq_steps (p : Path) : (steps p).filter (· ≠ Path.dot) = p.names := by
  simp only [steps, Path.names, List.filter_filter]
  refine List.filter_congr fun s _ => ?_
  simp [Bool.and_comm]

/-- A name of a file is looked for below the place of the directory it is seen from. -/
theorem walk_join (hname : name.isPlainRelative = true)
    (hw : d.walk (d.base (dir.join name)) (steps (dir.join name)) = .ok place) :
    ∃ top, d.walk (d.base dir) (steps dir) = .ok top ∧ place = top ++ name.names := by
  obtain ⟨-, hstart, hparent⟩ := Path.isPlainRelative_iff.mp hname
  have habsolute := Path.isAbsolute_of_start hstart
  rw [base_join d dir habsolute, steps_join dir habsolute, walk_append] at hw
  cases htop : d.walk (d.base dir) (steps dir) with
  | error e => simp [htop, Except.bind] at hw
  | ok top =>
      rw [htop] at hw
      refine ⟨top, rfl, ?_⟩
      have hdots : Path.dotDot ∉ steps name := fun h => hparent (List.mem_of_mem_filter h)
      rw [walk_names hdots hw, names_eq_steps]

theorem Grows.base (h : d.Grows d') (p : Path) : d'.base p = d.base p := by
  simp [Disk.base, h.home]

theorem readFile_eq_ok_iff : d.readFile p = .ok data ↔ refusal? p = none ∧
    ∃ place, d.walk (d.base p) (steps p) = .ok place ∧ d.entry? place = some (.file data) ∧
      endsInSlash p = false := by
  unfold readFile find
  cases hrefusal : refusal? p with
  | some e => simp
  | none =>
      cases hw : d.walk (d.base p) (steps p) with
      | error e => simp
      | ok place =>
          rcases he : d.entry? place with - | ⟨content⟩ | -
          · simp [he]
          · cases hslash : endsInSlash p <;> simp [he]
          · simp [he]

/-- What is read stays what it is, if the place it is read from keeps its entry. -/
theorem Grows.readFile (h : d.Grows d') (hread : d.readFile p = .ok data)
    (hentry : ∀ place, d.walk (d.base p) (steps p) = .ok place →
      d.entry? place = some (.file data) → d'.entry? place = some (.file data)) :
    d'.readFile p = .ok data := by
  obtain ⟨hrefusal, place, hw, he, hslash⟩ := readFile_eq_ok_iff.mp hread
  refine readFile_eq_ok_iff.mpr ⟨hrefusal, place, ?_, hentry place hw he, hslash⟩
  rw [h.base]
  exact h.walk hw

/-! ### Changes -/

theorem findParent_eq_ok {n : Bytes} (h : d.findParent p = .ok (at_, some n)) :
    refusal? p = none ∧ ∃ before, steps p = before ++ [n] ∧
      d.walk (d.base p) before = .ok at_ ∧ d.entry? at_ = some .directory ∧
      n ≠ Path.dot ∧ n ≠ Path.dotDot := by
  unfold findParent at h
  cases hrefusal : refusal? p with
  | some e => simp [hrefusal] at h
  | none =>
      refine ⟨rfl, ?_⟩
      cases hsteps : (steps p).reverse with
      | nil => simp [hrefusal, hsteps] at h
      | cons last before =>
          refine ⟨before.reverse, ?_⟩
          simp only [hrefusal, hsteps] at h
          have hlast : steps p = before.reverse ++ [last] := by
            simpa using congrArg List.reverse hsteps
          cases hw : d.walk (d.base p) before.reverse with
          | error e => simp [hw] at h
          | ok place =>
              simp only [hw] at h
              by_cases hdirectory : d.entry? place = some .directory
              · simp only [hdirectory, if_true, Except.ok.injEq, Prod.mk.injEq] at h
                obtain ⟨rfl, hname⟩ := h
                split at hname
                · cases hname
                · rename_i hdots
                  obtain rfl := Option.some.inj hname
                  exact ⟨hlast, rfl, hdirectory, by simpa using hdots⟩
              · simp [hdirectory] at h

/-- What is overwritten is a file, at the place that the path leads to from then on. -/
theorem overwrite_eq_ok (h : d.overwrite p data = .ok d') : refusal? p = none ∧
    endsInSlash p = false ∧ ∃ place, place ≠ [] ∧ d' = d.put place (.file data) ∧
      d.Grows d' ∧ d'.walk (d'.base p) (steps p) = .ok place := by
  unfold overwrite at h
  cases hparent : d.findParent p with
  | error e => simp [hparent] at h
  | ok found =>
      obtain ⟨at_, named⟩ := found
      cases named with
      | none => simp [hparent] at h
      | some n =>
          simp only [hparent] at h
          obtain ⟨hrefusal, before, hsteps, hw, hdirectory, hdot, hdots⟩ :=
            findParent_eq_ok hparent
          split at h
          · cases h
          rename_i hslash
          split at h
          · cases h
          rename_i hlength
          have hplace : at_ ++ [n] ≠ [] := by simp
          have hfile : d.entry? (at_ ++ [n]) ≠ some .directory := by
            intro he
            simp [he] at h
          have hput : d' = d.put (at_ ++ [n]) (.file data) := by
            split at h
            · cases h
            · exact (Except.ok.inj h).symm
          -- no directory gave way to the file, so the way to its place is still open
          have hgrows : d.Grows d' := hput ▸ grows_put_file hplace hfile
          refine ⟨hrefusal, by simpa using hslash, at_ ++ [n], hplace, hput, hgrows, ?_⟩
          rw [hgrows.base, hsteps, walk_append, hgrows.walk hw]
          have hentry : d'.entry? (at_ ++ [n]) = some (.file data) := by
            rw [hput, entry?_put hplace, if_pos rfl]
          exact walk_name (hgrows.directory _ hdirectory) hdot hdots hlength (by simp [hentry])

theorem makeDirectory_eq_ok (h : d.makeDirectory p = .ok d') : d.Extends d' := by
  unfold makeDirectory at h
  cases hparent : d.findParent p with
  | error e => simp [hparent] at h
  | ok found =>
      obtain ⟨at_, named⟩ := found
      cases named with
      | none => simp [hparent] at h
      | some n =>
          simp only [hparent] at h
          split at h
          · cases h
          split at h
          · cases h
          rename_i hfree
          obtain rfl := Except.ok.inj h
          exact extends_put (by simp) (by simpa using hfree)

theorem extends_settle (d : Disk) (p : Path) : d.Extends (d.settle p).1 := by
  unfold settle
  cases hmake : d.makeDirectory p with
  | ok d' => exact makeDirectory_eq_ok hmake
  | error e =>
      simp only
      split <;> exact .refl d

theorem extends_makeDirectories (fuel : Nat) (d : Disk) (p : Path) :
    d.Extends (makeDirectories fuel d p).1 := by
  induction fuel generalizing d p with
  | zero => exact .refl d
  | succ fuel ih =>
      rw [makeDirectories]
      split
      · exact .refl d
      split
      · cases p.parent? with
        | none => exact .refl d
        | some above =>
            have hup := ih d above
            simp only
            split <;> rename_i hmade <;> rw [hmade] at hup
            · exact hup
            · exact hup.trans (extends_settle _ p)
      · exact extends_settle d p

/-- A file is written into a disk that has more directories than the one before. -/
theorem writeFile_eq_ok (h : d.writeFile p data = (d', .ok ())) :
    ∃ mid, d.Extends mid ∧ mid.overwrite p data = .ok d' := by
  simp only [writeFile] at h
  split at h
  · simp at h
  rename_i mid hparents
  refine ⟨mid, ?_, ?_⟩
  · split at hparents
    · rw [← (Prod.mk.inj hparents).1]
      exact .refl d
    · rename_i above _
      have hup := extends_makeDirectories (above.components.length + 1) d above
      rwa [hparents] at hup
  · split at h
    · simp at h
    · rename_i hover
      rw [hover, (Prod.mk.inj h).1]

theorem readFile_of_writeFile (h : d.writeFile p data = (d', .ok ())) :
    d'.readFile p = .ok data := by
  obtain ⟨mid, -, hover⟩ := writeFile_eq_ok h
  obtain ⟨hrefusal, hslash, place, hplace, rfl, -, hw⟩ := overwrite_eq_ok hover
  refine readFile_eq_ok_iff.mpr ⟨hrefusal, place, hw, ?_, hslash⟩
  rw [entry?_put hplace, if_pos rfl]

theorem readFile_beside (h : d.writeFile p data = (d', .ok ())) (hbeside : p.Beside q)
    (hread : d.readFile q = .ok kept) : d'.readFile q = .ok kept := by
  obtain ⟨mid, hmid, hover⟩ := writeFile_eq_ok h
  have hread := hmid.grows.readFile hread fun place _ he => hmid.entry place _ he
  obtain ⟨-, -, written, hplace, hput, hgrows, hwritten⟩ := overwrite_eq_ok hover
  refine hgrows.readFile hread ?_
  intro place hw he
  obtain ⟨dir, name, other, rfl, rfl, hname, hother, hne⟩ := hbeside
  -- both ways go down from one place, along other names
  obtain ⟨top, htop, rfl⟩ := walk_join hname hwritten
  obtain ⟨below, hbelow, rfl⟩ := walk_join hother hw
  have hsame := hgrows.walk hbelow
  rw [← hgrows.base, htop] at hsame
  obtain rfl := Except.ok.inj hsame
  rw [hput, entry?_put hplace, if_neg, he]
  simpa using Ne.symm hne

theorem storage_write_eq_ok (h : storage.write d p data = (d', .ok ())) :
    d.writeFile p data = (d', .ok ()) := by
  have hstore : (d.writeFile p data).1 = d' := congrArg Prod.fst h
  have hdone : (d.writeFile p data).2.mapError DiskError.message = .ok () := congrArg Prod.snd h
  refine Prod.ext hstore ?_
  cases hwrite : (d.writeFile p data).2 with
  | error e => simp [hwrite, Except.mapError] at hdone
  | ok _ => rfl

/-- A disk tells files apart by the places that their paths lead to. -/
def fileTree : FileTree Disk where
  storage := storage
  file? d p := (d.readFile p).toOption
  write_ok h := by
    rw [readFile_of_writeFile (storage_write_eq_ok h)]
    rfl
  write_beside {d d' p q written kept} h hbeside hkept := by
    cases hread : d.readFile q with
    | error e => simp [hread, Except.toOption] at hkept
    | ok data =>
        obtain rfl : data = kept := by simpa [hread, Except.toOption] using hkept
        rw [readFile_beside (storage_write_eq_ok h) hbeside hread]
        rfl

end SourceDesk.Disk
