import Mathlib.Data.List.Nodup
import SourceDesk.CommandLine.Conduct
import SourceDesk.Proofs.CommandLine.Heard
import SourceDesk.Storage.Memory

/-! Verbosity has no part in what is done. A switch that asks for less talk or for more sets a
mark and changes nothing else, wherever it stands among the others, and a job comes to the same
whatever the marks: two runs that differ in such switches do the same, come to the same end, and
differ in what they print about their progress and in their log. -/
namespace SourceDesk.CommandLine

open Json.Write (list object text)

/-! ### Places for switches -/

namespace Use

/-- What is expected behind some words: a switch (`some none`), the value of a switch, or, where
no switch can follow any more, nothing that counts. -/
def expectedFrom : Option Slot → List Bytes → Option (Option Slot)
  | waiting, [] => some waiting
  | some s, w :: ws =>
    if s.takesAnyWord ∨ Word.ofBytes w = .plain then expectedFrom none ws else none
  | none, w :: ws =>
    match Word.ofBytes w with
    | .ending | .plain => none
    | .named name value => expectedFrom (ofName name value).2 ws
    | .letters bytes => expectedFrom (ofLetters bytes).2 ws

/-- Words are understood one after the other, as long as something is expected. -/
theorem ofWordsFrom_append {waiting expected : Option Slot} {before : List Bytes}
    (h : expectedFrom waiting before = some expected) :
    ∃ us, ∀ after, ofWordsFrom waiting (before ++ after) = us ++ ofWordsFrom expected after := by
  induction before generalizing waiting with
  | nil =>
      obtain rfl := Option.some.inj h
      exact ⟨[], fun after => rfl⟩
  | cons w before ih =>
      cases waiting with
      | some s =>
          simp only [expectedFrom, Option.ite_none_right_eq_some] at h
          obtain ⟨us, hus⟩ := ih h.2
          refine ⟨.assign s w :: us, fun after => ?_⟩
          simp only [List.cons_append, ofWordsFrom, if_pos h.1, hus]
      | none =>
          simp only [expectedFrom] at h
          split at h
          · cases h
          · cases h
          · rename_i name value hword
            obtain ⟨us, hus⟩ := ih h
            refine ⟨(ofName name value).1 ++ us, fun after => ?_⟩
            simp only [List.cons_append, ofWordsFrom, hword, hus, List.append_assoc]
          · rename_i bytes hword
            obtain ⟨us, hus⟩ := ih h
            refine ⟨(ofLetters bytes).1 ++ us, fun after => ?_⟩
            simp only [List.cons_append, ofWordsFrom, hword, hus, List.append_assoc]

end Use

/-- The words of the switches that ask for less talk or for more. -/
inductive Spells : Bytes → Toggle → Prop
  | quiet : Spells (Utf8.encode "--quiet") .quiet
  | verbose : Spells (Utf8.encode "--verbose") .verbose
  | letter : Spells (Utf8.encode "-v") .verbose

theorem Spells.ofWordsFrom {w : Bytes} {t : Toggle} (h : Spells w t) (ws : List Bytes) :
    Use.ofWordsFrom none (w :: ws) = .toggle t :: Use.ofWordsFrom none ws := by
  cases h with
  | quiet =>
      have hword : Word.ofBytes (Utf8.encode "--quiet") = .named (Utf8.encode "quiet") none := by
        decide
      have huse : Use.ofName (Utf8.encode "quiet") none = ([.toggle .quiet], none) := by decide
      simp [Use.ofWordsFrom, hword, huse]
  | verbose =>
      have hword : Word.ofBytes (Utf8.encode "--verbose") = .named (Utf8.encode "verbose") none := by
        decide
      have huse : Use.ofName (Utf8.encode "verbose") none = ([.toggle .verbose], none) := by decide
      simp [Use.ofWordsFrom, hword, huse]
  | letter =>
      have hword : Word.ofBytes (Utf8.encode "-v") = .letters (Utf8.encode "v") := by decide
      have huse : Use.ofLetters (Utf8.encode "v") = ([.toggle .verbose], none) := by decide
      simp [Use.ofWordsFrom, hword, huse]

/-! ### Marks -/

/-- The switch for less talk or for more that a use gives. -/
def Use.talk? : Use → Option Toggle
  | .toggle .quiet => some .quiet
  | .toggle .verbose => some .verbose
  | _ => none

@[simp] theorem Use.talk?_assign (s : Slot) (value : Bytes) : (assign s value).talk? = none := rfl

@[simp] theorem Use.talk?_listLanguages : (toggle .listLanguages).talk? = none := rfl

/-- Neither quiet nor verbose. -/
def Verbosity.normal : Verbosity := ⟨false, false⟩

/-- The verbosity once uses were heard. -/
def Verbosity.after (v : Verbosity) (us : List Use) : Verbosity :=
  ⟨v.quiet || .toggle .quiet ∈ us, v.verbose || .toggle .verbose ∈ us⟩

theorem Use.talk?_eq_some_iff {u : Use} {t : Toggle} :
    u.talk? = some t ↔ u = .toggle t ∧ t ≠ .listLanguages := by
  cases u with
  | toggle t' => cases t' <;> cases t <;> simp [talk?]
  | _ => simp [talk?]

theorem Use.toggle_not_mem {t : Toggle} {us : List Use} (ht : t ≠ .listLanguages)
    (h : t ∉ us.filterMap talk?) : .toggle t ∉ us :=
  fun hmem => h (List.mem_filterMap.mpr ⟨_, hmem, talk?_eq_some_iff.mpr ⟨rfl, ht⟩⟩)

theorem Spells.talk? {w : Bytes} {t : Toggle} (h : Spells w t) : (Use.toggle t).talk? = some t := by
  cases h <;> rfl

/-- Each switch for less talk or for more is given once at most, and was not given before. -/
structure Use.Fresh (v : Verbosity) (us : List Use) : Prop where
  nodup : (us.filterMap talk?).Nodup
  quiet : .toggle .quiet ∈ us → v.quiet = false
  verbose : .toggle .verbose ∈ us → v.verbose = false

namespace Use.Fresh

variable {v : Verbosity} {u : Use} {us : List Use}

theorem of_cons (h : Fresh v (u :: us)) : Fresh v us := by
  refine ⟨h.nodup.sublist ?_, fun hmem => h.quiet (by simp [hmem]),
    fun hmem => h.verbose (by simp [hmem])⟩
  exact (List.sublist_cons_self u us).filterMap _

theorem after_quiet (h : Fresh v (.toggle .quiet :: us)) : Fresh { v with quiet := true } us := by
  have hnot : .toggle .quiet ∉ us := Use.toggle_not_mem (by simp) (List.nodup_cons.mp h.nodup).1
  exact ⟨h.of_cons.nodup, fun hmem => absurd hmem hnot, h.of_cons.verbose⟩

theorem after_verbose (h : Fresh v (.toggle .verbose :: us)) :
    Fresh { v with verbose := true } us := by
  have hnot : .toggle .verbose ∉ us := Use.toggle_not_mem (by simp) (List.nodup_cons.mp h.nodup).1
  exact ⟨h.of_cons.nodup, h.of_cons.quiet, fun hmem => absurd hmem hnot⟩

end Use.Fresh

/-- The options with another verbosity. -/
def Options.loud (o : Options) (v : Verbosity) : Options := { o with verbosity := v }

/-- The invocation with another verbosity. -/
def Invocation.loud (i : Invocation) (v : Verbosity) : Invocation :=
  match i with
  | .work o => .work (o.loud v)
  | .notice n => .notice n
  | .misuse => .misuse

theorem Invocation.loud_loud (i : Invocation) (v v' : Verbosity) :
    (i.loud v).loud v' = i.loud v' := by
  cases i <;> rfl

namespace Options

theorem toggle?_listLanguages_loud (o : Options) (v : Verbosity) :
    (o.loud v).toggle? .listLanguages = (o.toggle? .listLanguages).map fun o => o.loud v := by
  cases hlists : o.job.listsLanguages <;> simp [toggle?, loud, hlists]

theorem assign?_loud (o : Options) (v : Verbosity) (s : Slot) (value : Bytes) :
    (o.loud v).assign? s value = (o.assign? s value).map fun o => o.loud v := by
  cases s <;> simp only [assign?, loud, Option.map_map, Function.comp_def]

variable {o o' : Options}

theorem verbosity_of_toggle? (h : o.toggle? .listLanguages = some o') :
    o'.verbosity = o.verbosity := by
  simp only [toggle?, Option.ite_none_left_eq_some] at h
  rw [← Option.some.inj h.2]

theorem verbosity_of_assign? {s : Slot} {value : Bytes} (h : o.assign? s value = some o') :
    o'.verbosity = o.verbosity := by
  cases s <;>
  · obtain ⟨a, -, rfl⟩ := Option.map_eq_some_iff.mp h
    rfl

/-- A switch for less talk or for more that was not given before sets its mark. -/
theorem toggle?_of_fresh {t : Toggle} {us : List Use} (ht : t ≠ .listLanguages)
    (h : Use.Fresh o.verbosity (.toggle t :: us)) :
    ∃ v, o.toggle? t = some (o.loud v) ∧ Use.Fresh v us ∧
      v.after us = o.verbosity.after (.toggle t :: us) := by
  cases t with
  | listLanguages => exact absurd rfl ht
  | quiet =>
      refine ⟨{ o.verbosity with quiet := true }, ?_, h.after_quiet, by simp [Verbosity.after]⟩
      simp [toggle?, loud, h.quiet]
  | verbose =>
      refine ⟨{ o.verbosity with verbose := true }, ?_, h.after_verbose, by simp [Verbosity.after]⟩
      simp [toggle?, loud, h.verbose]

end Options

namespace Invocation

/-- Where no use asks for a verbosity, it stays what it was to begin with. -/
theorem ofUsesFrom_loud {us : List Use} (h : ∀ u ∈ us, u.talk? = none) (o : Options)
    (v : Verbosity) : ofUsesFrom (o.loud v) us = (ofUsesFrom o us).loud v := by
  induction us generalizing o with
  | nil =>
      simp only [ofUsesFrom, show (o.loud v).isComplete = o.isComplete from rfl]
      split <;> rfl
  | cons u us ih =>
      obtain ⟨hu, hus⟩ := List.forall_mem_cons.mp h
      cases u with
      | notice n => rfl
      | misuse => rfl
      | toggle t =>
          cases t with
          | quiet => cases hu
          | verbose => cases hu
          | listLanguages =>
              simp only [ofUsesFrom, Options.toggle?_listLanguages_loud]
              cases o.toggle? .listLanguages with
              | none => rfl
              | some o => exact ih hus o
      | assign s value =>
          simp only [ofUsesFrom, Options.assign?_loud]
          cases o.assign? s value with
          | none => rfl
          | some o => exact ih hus o

/-- Switches for less talk or for more set their marks and change nothing else, wherever they
stand, as long as each is given once. -/
theorem ofUsesFrom_talk {us : List Use} {o : Options} (h : Use.Fresh o.verbosity us) :
    ofUsesFrom o us =
      (ofUsesFrom o (us.filter fun u => u.talk?.isNone)).loud (o.verbosity.after us) := by
  induction us generalizing o with
  | nil =>
      simp only [List.filter_nil, ofUsesFrom]
      split <;> simp [loud, Options.loud, Verbosity.after]
  | cons u us ih =>
      have hfiltered : ∀ u ∈ us.filter fun u => u.talk?.isNone, u.talk? = none := by
        intro u hu
        simpa using (List.mem_filter.mp hu).2
      cases u with
      | notice n => rfl
      | misuse => rfl
      | assign s value =>
          rw [List.filter_cons_of_pos (by simp)]
          simp only [ofUsesFrom]
          cases hassign : o.assign? s value with
          | none => rfl
          | some o' =>
              have hrest := h.of_cons
              rw [← Options.verbosity_of_assign? hassign] at hrest ⊢
              simpa [Verbosity.after] using ih hrest
      | toggle t =>
          by_cases ht : t = .listLanguages
          · subst ht
            rw [List.filter_cons_of_pos (by simp)]
            simp only [ofUsesFrom]
            cases htoggle : o.toggle? .listLanguages with
            | none => rfl
            | some o' =>
                have hrest := h.of_cons
                rw [← Options.verbosity_of_toggle? htoggle] at hrest ⊢
                simpa [Verbosity.after] using ih hrest
          · obtain ⟨v, htoggle, hfresh, hafter⟩ := Options.toggle?_of_fresh ht h
            have htalk : (Use.toggle t).talk? = some t := Use.talk?_eq_some_iff.mpr ⟨rfl, ht⟩
            have hrest := ih (o := o.loud v) hfresh
            rw [ofUsesFrom_loud hfiltered, loud_loud,
              show (o.loud v).verbosity.after us = _ from hafter] at hrest
            rw [List.filter_cons_of_neg (by simp [htalk])]
            simpa only [ofUsesFrom, htoggle] using hrest

/-- A list of languages that was asked for is what an invocation that works has in mind. -/
theorem listsLanguages_of_mem {us : List Use} {o o' : Options} (h : ofUsesFrom o us = .work o')
    (hlists : o.job.listsLanguages = true ∨ .toggle .listLanguages ∈ us) :
    o'.job.listsLanguages = true := by
  induction us generalizing o with
  | nil =>
      simp only [ofUsesFrom] at h
      split at h
      · obtain rfl := Invocation.work.inj h
        exact hlists.resolve_right (by simp)
      · cases h
  | cons u us ih =>
      cases u with
      | notice n => cases h
      | misuse => cases h
      | assign s value =>
          simp only [ofUsesFrom] at h
          cases hassign : o.assign? s value with
          | none => simp [hassign] at h
          | some next =>
              simp only [hassign] at h
              have hsame : next.job.listsLanguages = o.job.listsLanguages := by
                cases s <;>
                · obtain ⟨a, -, rfl⟩ := Option.map_eq_some_iff.mp hassign
                  rfl
              exact ih h (by simpa [hsame] using hlists)
      | toggle t =>
          simp only [ofUsesFrom] at h
          cases htoggle : o.toggle? t with
          | none => simp [htoggle] at h
          | some next =>
              simp only [htoggle] at h
              cases t <;> simp only [Options.toggle?, Option.ite_none_left_eq_some] at htoggle <;>
                obtain ⟨-, hnext⟩ := htoggle <;> obtain rfl := Option.some.inj hnext
              · exact ih h (.inl rfl)
              · exact ih h (by simpa using hlists)
              · exact ih h (by simpa using hlists)

end Invocation

/-! ### Command lines -/

/-- A word put between others, where a switch is expected. -/
def Inserted (w : Bytes) (words words' : List Bytes) : Prop :=
  ∃ before after, words = before ++ after ∧ words' = before ++ w :: after ∧
    Use.expectedFrom none before = some none

/-- Words with switches for less talk or for more put between them, each once at most. -/
inductive Added (words : List Bytes) : List Bytes → Prop
  | unchanged : Added words words
  | switch {ws ws' w t} : Added words ws → Spells w t → .toggle t ∉ Use.ofWords ws →
    Inserted w ws ws' → Added words ws'

section

variable {words ws ws' : List Bytes} {w : Bytes} {t : Toggle}

theorem Inserted.ofWords (h : Inserted w ws ws') (hw : Spells w t) :
    ∃ us₁ us₂, Use.ofWords ws = us₁ ++ us₂ ∧ Use.ofWords ws' = us₁ ++ .toggle t :: us₂ := by
  obtain ⟨before, after, rfl, rfl, hexpected⟩ := h
  obtain ⟨us, hus⟩ := Use.ofWordsFrom_append hexpected
  refine ⟨us, Use.ofWordsFrom none after, hus after, ?_⟩
  rw [← hw.ofWordsFrom]
  exact hus (w :: after)

/-- What is added are marks, each once, and all else is as it was. -/
theorem Added.uses (h : Added words ws) (hwords : ∀ u ∈ Use.ofWords words, u.talk? = none) :
    (Use.ofWords ws).filter (fun u => u.talk?.isNone) = Use.ofWords words ∧
      ((Use.ofWords ws).filterMap Use.talk?).Nodup := by
  induction h with
  | unchanged =>
      refine ⟨List.filter_eq_self.mpr fun u hu => by simp [hwords u hu], ?_⟩
      rw [List.filterMap_eq_nil_iff.mpr hwords]
      exact List.nodup_nil
  | switch _ hw hnew hinserted ih =>
      obtain ⟨us₁, us₂, hbefore, hafter⟩ := hinserted.ofWords hw
      obtain ⟨hfilter, hnodup⟩ := ih
      rw [hbefore] at hfilter hnodup hnew
      rw [hafter]
      refine ⟨?_, ?_⟩
      · rw [← hfilter, List.filter_append, List.filter_append,
          List.filter_cons_of_neg (by simp [hw.talk?])]
      · rw [List.filterMap_append, List.filterMap_cons_some hw.talk?, List.nodup_middle,
          ← List.filterMap_append]
        refine List.nodup_cons.mpr ⟨fun hmem => hnew ?_, hnodup⟩
        obtain ⟨u, hu, htalk⟩ := List.mem_filterMap.mp hmem
        rwa [← (Use.talk?_eq_some_iff.mp htalk).1]

/-- The invocation is the same, but for the verbosity. -/
theorem Added.ofWords (h : Added words ws) (hwords : ∀ u ∈ Use.ofWords words, u.talk? = none) :
    Invocation.ofWords ws =
      (Invocation.ofWords words).loud (Verbosity.normal.after (Use.ofWords ws)) := by
  obtain ⟨hfilter, hnodup⟩ := h.uses hwords
  have hfresh : Use.Fresh Options.none.verbosity (Use.ofWords ws) :=
    ⟨hnodup, fun _ => rfl, fun _ => rfl⟩
  rw [Invocation.ofWords, Invocation.ofUsesFrom_talk hfresh, hfilter]
  rfl

end

/-! ### Runs of the program -/

/-- Two runs of the program that do the same and come to the same end, and print the same but
for talk, of which each prints what its verbosity lets through. -/
structure Conduct.Alike {σ : Type} (c c' : Conduct σ) (v v' : Verbosity) (time : String) :
    Prop where
  status : c'.status = c.status
  launches : c'.report.launches = c.report.launches
  store : c'.report.store = c.report.store
  error : c'.report.error = c.report.error
  /-- All that is no talk is said by both, in the same order. -/
  rest : c'.report.remarks.filter (fun m => !m.isTalk) =
    c.report.remarks.filter fun m => !m.isTalk
  /-- There is one course of remarks of which both say what is shown. -/
  heard : ∃ r : Report σ, c.report = r.heard v ∧ c'.report = r.heard v'
  printed : c'.stdout = c.stdout ∧ c'.stderr = c.stderr ∨
    c.stdout = c.report.stdout ∧ c'.stdout = c'.report.stdout ∧
      c.stderr = c.report.stderr time ∧ c'.stderr = c'.report.stderr time

section

variable [FurtherCharsets] {σ : Type} (storage : Storage σ) (store : σ) (launch : Launcher)
variable (time : String)

theorem Invocation.conduct_loud (i : Invocation) (v v' : Verbosity) :
    ((i.loud v).conduct storage store launch time).Alike
      ((i.loud v').conduct storage store launch time) v v' time := by
  cases i with
  | work o =>
      let r := o.job.run .loudest storage store launch
      have hr : o.job.run v storage store launch = r.heard v :=
        (Job.run_heard v storage store o.job launch).symm
      have hr' : o.job.run v' storage store launch = r.heard v' :=
        (Job.run_heard v' storage store o.job launch).symm
      simp only [loud, conduct, Options.loud, hr, hr']
      exact ⟨rfl, (r.heard_launches v').trans (r.heard_launches v).symm, rfl, rfl,
        (r.heard_rest v').trans (r.heard_rest v).symm, ⟨r, rfl, rfl⟩, .inr ⟨rfl, rfl, rfl, rfl⟩⟩
  | notice n =>
      exact ⟨rfl, rfl, rfl, rfl, rfl, ⟨⟨store, [], none⟩, rfl, rfl⟩, .inl ⟨rfl, rfl⟩⟩
  | misuse =>
      exact ⟨rfl, rfl, rfl, rfl, rfl, ⟨⟨store, [], none⟩, rfl, rfl⟩, .inl ⟨rfl, rfl⟩⟩

/-- Languages that are listed are printed at every verbosity. -/
theorem Options.stdout_listing {o : Options} (h : o.job.listsLanguages = true) (v : Verbosity) :
    ((Invocation.work (o.loud v)).conduct storage store launch time).stdout =
      (o.job.run .loudest storage store launch).stdout := by
  rw [← Report.heard_stdout _ v (Job.run_progress h .loudest storage store launch),
    Job.run_heard]
  rfl

/-- A command line that asks for no verbosity, and the same with switches for less talk or for
more anywhere between its words: both runs exit alike, start the same programs with the same
lines in the same order, leave the same files and end in the same error. They differ in
progress and in log records, and where languages are listed not even in the former. -/
theorem conduct_verbosity {words words' : List Bytes}
    (hwords : ∀ u ∈ Use.ofWords words, u.talk? = none) (h : Added words words') :
    let c := (Invocation.ofWords words).conduct storage store launch time
    let c' := (Invocation.ofWords words').conduct storage store launch time
    c.Alike c' .normal (Verbosity.normal.after (Use.ofWords words')) time ∧
    (.toggle .listLanguages ∈ Use.ofWords words → c'.stdout = c.stdout) := by
  intro c c'
  have hnormal : Verbosity.normal.after (Use.ofWords words) = .normal := by
    have hnot : ∀ t, t ≠ .listLanguages → .toggle t ∉ Use.ofWords words := by
      intro t ht hmem
      have htalk := Use.talk?_eq_some_iff.mpr ⟨rfl, ht⟩
      rw [hwords _ hmem] at htalk
      cases htalk
    simp [Verbosity.after, Verbosity.normal, hnot]
  have hbase := Added.ofWords (.unchanged : Added words words) hwords
  rw [hnormal] at hbase
  have halike : c.Alike c' .normal (Verbosity.normal.after (Use.ofWords words')) time := by
    simp only [c, c']
    rw [h.ofWords hwords, hbase, Invocation.loud_loud]
    exact Invocation.conduct_loud storage store launch time (Invocation.ofWords words) _ _
  refine ⟨halike, fun hlists => ?_⟩
  simp only [c, c', h.ofWords hwords]
  cases hinvocation : Invocation.ofWords words with
  | work o =>
      have hjob := Invocation.listsLanguages_of_mem hinvocation (.inr hlists)
      exact (Options.stdout_listing storage store launch time hjob _).trans
        (Options.stdout_listing storage store launch time hjob o.verbosity).symm
  | notice n => rfl
  | misuse => rfl

end

attribute [local instance] FurtherCharsets.none in
/-- A source that is translated and written, without a switch for less talk or for more, and
with one of each kind. -/
theorem conduct_verbosity_both :
    let words := ["-s", "a", "-t", "tool", "-o", "out", "-l", "go"].map Utf8.encode
    let words' := ["--quiet", "-s", "a", "-v", "-t", "tool", "-o", "out", "-l", "go"].map Utf8.encode
    let target := object [("name", text "b"), ("content", text "1")]
    let stdout := object [("status", text "ok"), ("payload", object [("targets", list [target])])]
    let launch : Launcher := fun _ _ => .ended (.code 0) stdout [] true
    let files := Memory.ofFiles [(.ofText "a", [0x41])]
    let c := (Invocation.ofWords words).conduct Memory.storage files launch "now"
    let c' := (Invocation.ofWords words').conduct Memory.storage files launch "now"
    (∀ u ∈ Use.ofWords words, u.talk? = none) ∧ Added words words' ∧ c'.status = 0 ∧
      c'.report.store.files.map Prod.fst = [.ofText "a", .ofText "out/b"] ∧
      c.stdout ≠ "" ∧ c'.stdout = "" := by
  intro words words' target stdout launch files c c'
  have hwords : ∀ u ∈ Use.ofWords words, u.talk? = none := by decide +kernel
  have hadded : Added words words' :=
    .switch (.switch .unchanged .quiet (by decide +kernel) ⟨[], words, rfl, rfl, rfl⟩) .letter
      (by decide +kernel) ⟨words'.take 3, words.drop 2, rfl, rfl, by decide +kernel⟩
  obtain ⟨⟨hstatus, -, hstore, -, -, -, -⟩, -⟩ :=
    conduct_verbosity Memory.storage files launch "now" hwords hadded
  refine ⟨hwords, hadded, hstatus.trans (by decide +kernel), ?_, by decide +kernel,
    by decide +kernel⟩
  rw [show c'.report.store = _ from hstore]
  decide +kernel

end SourceDesk.CommandLine
