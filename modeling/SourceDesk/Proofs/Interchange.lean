import SourceDesk.Proofs.Json.Direct
import SourceDesk.Proofs.Json.WellFormed
import SourceDesk.Proofs.Translator.Request
import SourceDesk.Proofs.Translator.Response
import SourceDesk.Settings

/-! The data that are written as JSON and read back: named texts, places, diagnostics and settings.
A value has many JSON forms, which differ in the order of the members and in what they leave out,
and each form has many spellings. All of them are read as the value, and one of them is written. -/
namespace SourceDesk

open Json

/-- A writer and a decoder that belong together, where `IsForm` tells which trees stand for a
value. -/
structure Interchange {α : Type} (write : α → Option Bytes) (d : Decoder α)
    (IsForm : α → Tree → Prop) : Prop where
  /-- What is written is read as what it was written for. -/
  returns {a data} : write a = some data → d.decode data = .ok a
  /-- What is written is a form. -/
  writes {a data} : write a = some data → ∃ t, IsForm a t ∧ t.SpelledBy data
  /-- Every form is read, however it is spelled. -/
  reads {a t text} : IsForm a t → t.SpelledIn text → d.decode text = .ok a
  /-- What is read from any text can be written, and is read again from that. -/
  rewrites {a text} : d.decode text = .ok a → ∃ data, write a = some data ∧ d.decode data = .ok a

theorem Interchange.of_forms {α : Type} {write : α → Option Bytes} {d : Decoder α}
    {IsForm : α → Tree → Prop} (hd : d.Faithful)
    (hforms : ∀ a t, IsForm a t → d.ofTree .inSequence t = .ok a)
    (hwrites : ∀ a data, write a = some data → ∃ t, IsForm a t ∧ t.SpelledBy data)
    (hyields : ∀ a, d.Yields a → ∃ data, write a = some data) : Interchange write d IsForm := by
  have hreturns {a data} (h : write a = some data) : d.decode data = .ok a := by
    obtain ⟨t, ht, hdata⟩ := hwrites a data h
    exact hd.decode hdata.spelledIn (hforms a t ht)
  refine ⟨hreturns, hwrites _ _, fun ht htext => hd.decode htext (hforms _ _ ht), fun h => ?_⟩
  obtain ⟨data, hdata⟩ := hyields _ (Decoder.yields_of_decode h)
  exact ⟨data, hdata, hreturns hdata⟩

/-! ### Named texts -/

/-- The forms of a named text: its two members in any order. -/
def NamedText.IsForm (x : NamedText) (t : Tree) : Prop :=
  t.IsObject [("name", .text x.name), ("content", .text x.content)]

theorem NamedText.faithful_decoder : NamedText.decoder.Faithful :=
  Fields.Faithful.decoder (f := NamedText.fields)
    ⟨Decoder.faithful_text, Decoder.faithful_text, trivial⟩ _ _

theorem NamedText.IsForm.reads {x : NamedText} {t : Tree} {e : Excess} (h : x.IsForm t) :
    NamedText.decoder.ofTree e t = .ok x := by
  have hfields : t.HasFields ["name", "content"] [some (.text x.name), some (.text x.content)] :=
    h.hasFields (.cons (by simp [values]) (.cons (by simp [values]) .nil))
  rw [NamedText.decoder, Fields.decoder_ofTree_iff]
  simp only [Fields.ofTree_eq_ok_iff (f := NamedText.fields) (by decide)]
  refine ⟨(x.name, x.content, ()), ⟨_, hfields, ?_⟩, rfl⟩
  simp [NamedText.fields, Decoder.text_ofTree_iff]

theorem NamedText.interchange :
    Interchange (fun x : NamedText => some x.write) NamedText.decoder NamedText.IsForm :=
  .of_forms faithful_decoder (fun _ _ h => h.reads)
    (fun x _ h => ⟨x.tree, ⟨_, rfl, .refl _⟩, Option.some.inj h ▸ x.spelledBy_write⟩)
    fun x _ => ⟨x.write, rfl⟩

/-! ### Places -/

/-- The forms of a place: its two members in any order. -/
def SourcePosition.IsForm (p : SourcePosition) (t : Tree) : Prop :=
  t.IsObject [("source", .text p.source), ("offset", .number (.nat p.offset.toNat))]

theorem SourcePosition.faithful_decoder : SourcePosition.decoder.Faithful :=
  Fields.Faithful.decoder (f := SourcePosition.fields)
    ⟨Decoder.faithful_text, Decoder.faithful_count, trivial⟩ _ _

theorem SourcePosition.IsForm.reads {p : SourcePosition} {t : Tree} {e : Excess} (h : p.IsForm t) :
    SourcePosition.decoder.ofTree e t = .ok p :=
  Response.position_ofTree_iff.mpr ⟨p.offset.toNat,
    h.hasFields (.cons (by simp [values]) (.cons (by simp [values]) .nil)), UInt64.ofNat_toNat⟩

theorem SourcePosition.IsForm.ne_null (p : SourcePosition) : ¬p.IsForm .null := by
  rintro ⟨ms, h, -⟩
  cases h

theorem SourcePosition.exists_form (p : SourcePosition) : ∃ t, p.IsForm t ∧ t.SpelledBy p.write := by
  have hoffset : (Tree.number (.nat p.offset.toNat)).SpelledBy (Write.nat p.offset.toNat) :=
    ⟨p.offset.toNat_lt, rfl⟩
  exact ⟨_, ⟨_, rfl, .refl _⟩,
    spelledBy_object (.cons (spelledMember_text "source" p.source) (.cons ⟨rfl, hoffset⟩ .nil))⟩

theorem SourcePosition.interchange :
    Interchange (fun p : SourcePosition => some p.write) SourcePosition.decoder
      SourcePosition.IsForm :=
  .of_forms faithful_decoder (fun _ _ h => h.reads)
    (fun p _ h => Option.some.inj h ▸ p.exists_form) fun p _ => ⟨p.write, rfl⟩

/-! ### Diagnostics -/

/-- The forms of a diagnostic: its message and what is said about its place, in any order. -/
def Diagnostic.IsForm (d : Diagnostic) (t : Tree) : Prop :=
  ∃ place, Says SourcePosition.IsForm d.position place ∧
    t.IsObject (present [("message", some (.text d.message)), ("position", place)])

theorem Diagnostic.faithful_decoder : Diagnostic.decoder.Faithful :=
  Fields.Faithful.decoder (f := Diagnostic.fields)
    ⟨Decoder.faithful_text, SourcePosition.faithful_decoder.optional, trivial⟩ _ _

theorem Diagnostic.IsForm.reads {d : Diagnostic} {t : Tree} {e : Excess} (h : d.IsForm t) :
    Diagnostic.decoder.ofTree e t = .ok d := by
  obtain ⟨place, hplace, ht⟩ := h
  have hfields := ht.hasFields_present (by simp)
  rw [Diagnostic.decoder, Fields.decoder_ofTree_iff]
  simp only [Fields.ofTree_eq_ok_iff (f := Diagnostic.fields) (by decide)]
  refine ⟨(d.message, d.position, ()), ⟨_, hfields, ?_⟩, rfl⟩
  exact ⟨_, _, rfl, rfl, place, [], rfl,
    Says.reads SourcePosition.IsForm.ne_null (fun _ _ h => h.reads) hplace, rfl⟩

theorem Diagnostic.exists_form (d : Diagnostic) : ∃ t, d.IsForm t ∧ t.SpelledBy d.write := by
  obtain ⟨message, position⟩ := d
  have hmessage := spelledMember_text "message" message
  cases position with
  | none => exact ⟨_, ⟨none, .inl rfl, _, rfl, .refl _⟩, spelledBy_object (.cons hmessage .nil)⟩
  | some p =>
      obtain ⟨t, hform, ht⟩ := p.exists_form
      exact ⟨_, ⟨some t, ⟨t, rfl, hform⟩, _, rfl, .refl _⟩,
        spelledBy_object (.cons hmessage (.cons ⟨rfl, ht⟩ .nil))⟩

theorem Diagnostic.interchange :
    Interchange (fun d : Diagnostic => some d.write) Diagnostic.decoder Diagnostic.IsForm :=
  .of_forms faithful_decoder (fun _ _ h => h.reads)
    (fun d _ h => Option.some.inj h ▸ d.exists_form) fun d _ => ⟨d.write, rfl⟩

/-- Without a place a diagnostic is written with its message alone. -/
theorem Diagnostic.spelledIn_write_unlocated {message : String} {t : Tree} :
    t.SpelledIn (unlocated message).write ↔ t = .object [("message", .text message)] := by
  have hwrite : (Tree.object [("message", .text message)]).SpelledIn (unlocated message).write :=
    (spelledBy_object (.cons (spelledMember_text "message" message) .nil)).spelledIn
  exact ⟨fun h => h.unique hwrite, fun h => h ▸ hwrite⟩

/-! ### Settings -/

/-- A path whose bytes are a text. -/
def Path.IsText (p : Path) : Prop := ∃ s, p = Path.ofText s

/-- A path stands as the text that its bytes are. -/
def Path.IsForm (p : Path) (t : Tree) : Prop := ∃ s, p = Path.ofText s ∧ t = .text s

theorem Path.isText_iff {p : Path} : p.IsText ↔ ∃ s, Utf8.decode? p.bytes = some s := by
  obtain ⟨bytes⟩ := p
  simp only [Path.IsText, Path.ofText, Path.mk.injEq, Utf8.decode?_eq_some_iff]

namespace Settings

variable {s : Settings} {t : Tree} {data : Bytes}

/-- The forms of settings: what is said about each of them, in any order. -/
def IsForm (s : Settings) (t : Tree) : Prop :=
  ∃ translator args language namespaceHint outputDir,
    Says Path.IsForm s.translator translator ∧
    (args = some (.array (s.translatorArgs.map .text)) ∨ s.translatorArgs = [] ∧ args = .none) ∧
    Says (fun s t => t = .text s) s.language language ∧
    Says (fun s t => t = .text s) s.namespaceHint namespaceHint ∧
    Says Path.IsForm s.outputDir outputDir ∧
    t.IsObject (present
      [("translator", translator), ("translator_args", args), ("language", language),
       ("namespace", namespaceHint), ("output_dir", outputDir)])

/-- The settings in which every path is a text. -/
def HasTextPaths (s : Settings) : Prop :=
  (∀ p, s.translator = some p → p.IsText) ∧ ∀ p, s.outputDir = some p → p.IsText

theorem faithful_decoder : decoder.Faithful :=
  Fields.Faithful.decoder (f := fields)
    ⟨Decoder.faithful_path.optional, Decoder.faithful_text.list, Decoder.faithful_text.optional,
      Decoder.faithful_text.optional, Decoder.faithful_path.optional, trivial⟩ _ _

/-! What is said of each field is what the field takes. -/

section

variable {e : Excess} {said : Option Tree}

theorem path_reads {o : Option Path} : Says Path.IsForm o said →
    match said with
    | some t => Decoder.path.optional.ofTree e t = .ok o
    | .none => some .none = some o := by
  refine Says.reads ?_ ?_
  · rintro p ⟨text, -, h⟩
    cases h
  · rintro _ _ ⟨text, rfl, rfl⟩
    rfl

theorem text_reads {o : Option String} : Says (fun s t => t = .text s) o said →
    match said with
    | some t => Decoder.text.optional.ofTree e t = .ok o
    | .none => some .none = some o :=
  Says.reads (fun _ h => nomatch h) fun _ _ h => Decoder.text_ofTree_iff.mpr h

theorem texts_reads {args : List String} :
    said = some (.array (args.map .text)) ∨ args = [] ∧ said = .none →
    match said with
    | some t => Decoder.text.list.ofTree e t = .ok args
    | .none => some [] = some args := by
  rintro (rfl | ⟨rfl, rfl⟩)
  · refine Decoder.list_ofTree_iff.mpr ⟨_, rfl, ?_⟩
    rw [List.forall₂_map_left_iff, List.forall₂_same]
    exact fun arg _ => Decoder.text_ofTree_iff.mpr rfl
  · rfl

theorem IsForm.reads (h : s.IsForm t) : decoder.ofTree e t = .ok s := by
  obtain ⟨translator, args, language, namespaceHint, outputDir, htranslator, hargs, hlanguage,
    hhint, hdir, ht⟩ := h
  have hfields := ht.hasFields_present (by simp)
  rw [decoder, Fields.decoder_ofTree_iff]
  simp only [Fields.ofTree_eq_ok_iff (f := fields) (by decide)]
  refine ⟨(s.translator, s.translatorArgs, s.language, s.namespaceHint, s.outputDir, ()),
    ⟨_, hfields, ?_⟩, rfl⟩
  exact ⟨_, _, rfl, path_reads htranslator, _, _, rfl, texts_reads hargs, _, _, rfl,
    text_reads hlanguage, _, _, rfl, text_reads hhint, _, _, rfl, path_reads hdir, rfl⟩

end

/-! What is written for each field is something that is said of it. -/

theorem exists_writePath_iff {o : Option Path} :
    (∃ v, writePath? o = some v) ↔ ∀ p, o = some p → p.IsText := by
  cases o with
  | none => simp [writePath?]
  | some p =>
      simp only [writePath?, Option.map_eq_some_iff, Option.some.injEq, forall_eq']
      rw [Path.isText_iff]
      constructor
      · rintro ⟨_, text, htext, -⟩
        exact ⟨text, htext⟩
      · rintro ⟨text, htext⟩
        exact ⟨_, text, htext, rfl⟩

theorem spelledBy_writePath {o : Option Path} {v : Bytes} (h : writePath? o = some v) :
    ∃ t, Says Path.IsForm o (some t) ∧ t.SpelledBy v := by
  cases o with
  | none => exact ⟨.null, .inr rfl, (Option.some.inj h).symm⟩
  | some p =>
      obtain ⟨bytes⟩ := p
      obtain ⟨text, htext, rfl⟩ := Option.map_eq_some_iff.mp h
      obtain rfl := Utf8.decode?_eq_some_iff.mp htext
      exact ⟨.text text, ⟨_, rfl, text, rfl, rfl⟩, spelledText_text text⟩

theorem spelledBy_writeText (o : Option String) :
    ∃ t, Says (fun s t => t = .text s) o (some t) ∧ t.SpelledBy (writeText o) := by
  cases o with
  | none => exact ⟨.null, .inr rfl, rfl⟩
  | some text => exact ⟨.text text, ⟨_, rfl, rfl⟩, spelledText_text text⟩

theorem spelledBy_writeTexts (args : List String) :
    (Tree.array (args.map .text)).SpelledBy (Write.list (args.map Write.text)) :=
  spelledBy_list_map fun arg _ => spelledText_text arg

theorem exists_form (h : s.write? = some data) : ∃ t, s.IsForm t ∧ t.SpelledBy data := by
  unfold write? at h
  split at h
  · rename_i translator outputDir htranslator hdir
    obtain ⟨translatorTree, htranslator, hspelled⟩ := spelledBy_writePath htranslator
    obtain ⟨dirTree, hdir, hdirSpelled⟩ := spelledBy_writePath hdir
    obtain ⟨languageTree, hlanguage, hlanguageSpelled⟩ := spelledBy_writeText s.language
    obtain ⟨hintTree, hhint, hhintSpelled⟩ := spelledBy_writeText s.namespaceHint
    obtain rfl := Option.some.inj h
    refine ⟨_, ⟨_, _, _, _, _, htranslator, .inl rfl, hlanguage, hhint, hdir, _, rfl, .refl _⟩, ?_⟩
    exact spelledBy_object (.cons ⟨rfl, hspelled⟩ (.cons ⟨rfl, spelledBy_writeTexts _⟩
      (.cons ⟨rfl, hlanguageSpelled⟩ (.cons ⟨rfl, hhintSpelled⟩ (.cons ⟨rfl, hdirSpelled⟩ .nil)))))
  · cases h

/-- Settings can be written exactly if their paths are texts. -/
theorem exists_write_iff : (∃ data, s.write? = some data) ↔ s.HasTextPaths := by
  rw [HasTextPaths, ← exists_writePath_iff, ← exists_writePath_iff, write?]
  constructor
  · rintro ⟨data, h⟩
    split at h
    · exact ⟨⟨_, ‹_›⟩, ⟨_, ‹_›⟩⟩
    · cases h
  · rintro ⟨⟨translator, htranslator⟩, ⟨outputDir, hdir⟩⟩
    rw [htranslator, hdir]
    exact ⟨_, rfl⟩

/-- Paths come from strings, so what is read can be written. -/
theorem hasTextPaths_of_yields (h : decoder.Yields s) : s.HasTextPaths := by
  have hpath {o : Option Path} (h : Decoder.path.optional.Yields o ∨ some .none = some o) :
      ∀ p, o = some p → p.IsText := by
    rintro p rfl
    rcases h with h | h
    · obtain ⟨text, -, rfl⟩ := Decoder.yields_map_iff.mp h.of_optional
      exact ⟨text, rfl⟩
    · cases h
  obtain ⟨⟨translator, args, language, namespaceHint, outputDir, ⟨⟩⟩, hfields, rfl⟩ :=
    Fields.yields_of_decoder h
  obtain ⟨htranslator, -, -, -, hdir, -⟩ := hfields
  exact ⟨hpath htranslator, hpath hdir⟩

theorem interchange : Interchange write? decoder IsForm :=
  .of_forms faithful_decoder (fun _ _ h => h.reads) (fun _ _ h => exists_form h)
    fun _ h => exists_write_iff.mpr (hasTextPaths_of_yields h)

/-! ### Files of settings -/

variable {read : Path → Except String Bytes} {path : Path}

/-- A file with settings in any of their forms is loaded as them. -/
theorem load_of_form (h : s.IsForm t) (ht : t.SpelledIn data) (hread : read path = .ok data) :
    load read path = .ok s := by
  obtain ⟨content, hcontent⟩ :=
    Option.isSome_iff_exists.mp (Utf8.isSome_decode?_iff.mpr ht.wellFormed)
  simp [load, hread, hcontent, interchange.reads h ht]

theorem load_of_write (h : s.write? = some data) (hread : read path = .ok data) :
    load read path = .ok s := by
  obtain ⟨t, hform, ht⟩ := interchange.writes h
  exact load_of_form hform ht.spelledIn hread

end Settings

/-- Named texts, places, diagnostics and settings come back from JSON as they were, from any of
their forms in any spelling, and whatever is read can be written and comes back. Settings can be
written exactly if their paths are texts, and a file that holds them is loaded as them. A diagnostic
without a place is written with its message alone. -/
theorem json_interchange :
    Interchange (fun x : NamedText => some x.write) NamedText.decoder NamedText.IsForm ∧
    Interchange (fun p : SourcePosition => some p.write) SourcePosition.decoder
      SourcePosition.IsForm ∧
    Interchange (fun d : Diagnostic => some d.write) Diagnostic.decoder Diagnostic.IsForm ∧
    Interchange Settings.write? Settings.decoder Settings.IsForm ∧
    (∀ s : Settings, (∃ data, s.write? = some data) ↔ s.HasTextPaths) ∧
    (∀ (s : Settings) (read : Path → Except String Bytes) path data, s.write? = some data →
      read path = .ok data → Settings.load read path = .ok s) ∧
    (∀ (s : Settings) (read : Path → Except String Bytes) path t data, s.IsForm t →
      t.SpelledIn data → read path = .ok data → Settings.load read path = .ok s) ∧
    ∀ (message : String) (t : Tree),
      t.SpelledIn (Diagnostic.unlocated message).write ↔ t = .object [("message", .text message)] := by
  refine ⟨NamedText.interchange, SourcePosition.interchange, Diagnostic.interchange,
    Settings.interchange, fun s => Settings.exists_write_iff, ?_, ?_, ?_⟩
  · intro s read path data hwrite hread
    exact Settings.load_of_write hwrite hread
  · intro s read path t data hform hspelled hread
    exact Settings.load_of_form hform hspelled hread
  · intro message t
    exact Diagnostic.spelledIn_write_unlocated

/-- Members may stand in any order, and those that are not set may be missing. -/
example :
    Settings.decoder.decode (Utf8.encode "\x7b \"language\": null, \"translator\" : \"bin/t\" \x7d") =
      .ok { Settings.none with translator := some (Path.ofText "bin/t") } := by
  rfl

end SourceDesk
