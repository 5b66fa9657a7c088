import SourceDesk.Proofs.Json.Record
import SourceDesk.Proofs.Json.Write
import SourceDesk.Translator.External

/-! What an external translator is sent: one line of JSON that can be read in one way only, and
that says all of the request. -/
namespace SourceDesk

open Json

/-! ### The values that are written -/

/-- The JSON value of a text. -/
def NamedText.tree (x : NamedText) : Tree :=
  .object [("name", .text x.name), ("content", .text x.content)]

/-- The JSON value of a commission. -/
def Commission.tree (c : Commission) : Tree :=
  .object
    [("sources", .array (c.sources.map NamedText.tree)), ("namespace", .text c.namespaceHint),
     ("language", .text c.language)]

/-- The JSON value of a request. -/
def Request.tree : Request → Tree
  | .translate c => .object [("cmd", .text "translate"), ("payload", c.tree)]
  | .languages => .object [("cmd", .text "languages")]

theorem NamedText.tree_injective : Function.Injective NamedText.tree := by
  rintro ⟨name, content⟩ ⟨name', content'⟩ h
  simpa [NamedText.tree] using h

theorem Commission.tree_injective : Function.Injective Commission.tree := by
  rintro ⟨sources, namespaceHint, language⟩ ⟨sources', namespaceHint', language'⟩ h
  simp only [Commission.tree, Tree.object.injEq, List.cons.injEq, Prod.mk.injEq, Tree.array.injEq,
    Tree.text.injEq, true_and, and_true] at h
  obtain ⟨hsources, rfl, rfl⟩ := h
  rw [NamedText.tree_injective.list_map hsources]

theorem Request.tree_injective : Function.Injective Request.tree := by
  rintro (c | _) (c' | _) h
  · simp only [Request.tree, Tree.object.injEq, List.cons.injEq, Prod.mk.injEq, true_and,
      and_true] at h
    rw [Commission.tree_injective h]
  · simp [Request.tree] at h
  · simp [Request.tree] at h
  · rfl

/-! ### Their spelling -/

theorem NamedText.spelledBy_write (x : NamedText) : x.tree.SpelledBy x.write :=
  spelledBy_object
    (.cons ⟨rfl, spelledText_text x.name⟩ (.cons ⟨rfl, spelledText_text x.content⟩ .nil))

theorem Commission.spelledBy_write (c : Commission) : c.tree.SpelledBy c.write := by
  have hsources : (Tree.array (c.sources.map NamedText.tree)).SpelledBy
      (Write.list (c.sources.map NamedText.write)) :=
    spelledBy_list_map fun x _ => x.spelledBy_write
  exact spelledBy_object (.cons ⟨rfl, hsources⟩ (.cons ⟨rfl, spelledText_text c.namespaceHint⟩
    (.cons ⟨rfl, spelledText_text c.language⟩ .nil)))

theorem Request.spelledBy_write (q : Request) : q.tree.SpelledBy q.write := by
  cases q with
  | translate c =>
      exact spelledBy_object (.cons ⟨rfl, spelledText_text "translate"⟩
        (.cons ⟨rfl, c.spelledBy_write⟩ .nil))
  | languages => exact spelledBy_object (.cons ⟨rfl, spelledText_text "languages"⟩ .nil)

theorem Request.spelledIn_line (q : Request) : q.tree.SpelledIn q.line :=
  ⟨[], q.write, [10], rfl, blank_nil, q.spelledBy_write, by simp [Blank, isBlank]⟩

/-- A line says one thing only. -/
theorem Request.spelledIn_line_iff {q : Request} {t : Tree} : t.SpelledIn q.line ↔ t = q.tree :=
  ⟨fun h => h.unique q.spelledIn_line, fun h => h ▸ q.spelledIn_line⟩

theorem Request.line_injective : Function.Injective Request.line := by
  intro q q' h
  have hread := q.spelledIn_line
  rw [h] at hread
  exact Request.tree_injective (hread.unique q'.spelledIn_line)

/-! ### One line -/

theorem NamedText.printable_write (x : NamedText) : Printable x.write := by
  apply Printable.object
  simp only [List.forall_mem_cons]
  exact ⟨printable_text _, printable_text _, by simp⟩

theorem Commission.printable_write (c : Commission) : Printable c.write := by
  apply Printable.object
  simp only [List.forall_mem_cons]
  refine ⟨.list fun v hv => ?_, printable_text _, printable_text _, by simp⟩
  obtain ⟨x, -, rfl⟩ := List.mem_map.mp hv
  exact x.printable_write

theorem Request.printable_write (q : Request) : Printable q.write := by
  cases q with
  | translate c =>
      apply Printable.object
      simp only [List.forall_mem_cons]
      exact ⟨printable_text _, c.printable_write, by simp⟩
  | languages =>
      apply Printable.object
      simp only [List.forall_mem_cons]
      exact ⟨printable_text _, by simp⟩

theorem Request.depth_tree (q : Request) : q.tree.depth ≤ maxDepth := by
  have hitems (xs : List NamedText) : depthOfItems (xs.map NamedText.tree) ≤ 1 :=
    depthOfItems_le fun t ht => by
      obtain ⟨x, -, rfl⟩ := List.mem_map.mp ht
      exact Nat.le_refl 1
  have hmax : 4 ≤ maxDepth := by decide
  cases q with
  | translate c =>
      have hsources := hitems c.sources
      simp only [tree, Commission.tree, Tree.depth, depthOfMembers]
      omega
  | languages =>
      simp only [tree, Tree.depth, depthOfMembers]
      omega

theorem Json.Printable.line {body : Bytes} (h : Printable body) : ∃ s, body ++ [10] = Utf8.encode s := by
  obtain ⟨s, rfl, -⟩ := h
  exact ⟨s ++ "\n", by rw [encode_append]; rfl⟩

theorem launches_commission (command : Command) (launch : Launcher) (c : Commission) :
    (command.translate launch c).events.filterMap Event.launched? =
      [⟨command, (Request.translate c).line, launch command (Request.translate c).line⟩] := by
  simp only [Command.translate, Command.ask]
  split <;> rfl

/-- A program that is asked for targets is sent one line, which is UTF-8 and ends where its only
control character stands. As JSON the line is the commission and nothing else, and no other
request has it. -/
theorem Command.translate_sends (command : Command) (launch : Launcher) (c : Commission) :
    ∃ body line, line = body ++ [10] ∧
      (command.translate launch c).events.filterMap Event.launched? =
        [⟨command, line, launch command line⟩] ∧
      (∃ s, line = Utf8.encode s) ∧ (∀ b ∈ body, 0x20 ≤ b) ∧
      (∀ t : Tree, t.SpelledIn line ↔ t = .object [("cmd", .text "translate"), ("payload", c.tree)]) ∧
      Decoder.free.decode line = .ok (Request.translate c).tree.settle ∧
      (∀ other, Request.line (.translate other) = line ↔ other = c) ∧
      Request.line .languages ≠ line := by
  have hprintable := (Request.translate c).printable_write
  refine ⟨(Request.translate c).write, _, rfl, launches_commission command launch c, hprintable.line,
    fun b hb => hprintable.le hb, fun t => Request.spelledIn_line_iff,
    Decoder.free_decode_eq_ok_iff.mpr ⟨_, Request.spelledIn_line _, Request.depth_tree _, rfl⟩,
    fun other => ⟨fun h => ?_, fun h => h ▸ rfl⟩, fun h => ?_⟩
  · exact Request.translate.inj (Request.line_injective h)
  · cases Request.line_injective h

/-- Line feeds and quotes are spelled by escapes. -/
example :
    (Request.translate ⟨[⟨"a", "1\n\"2\""⟩], "", "en"⟩).line = Utf8.encode
      ("\x7b\"cmd\":\"translate\",\"payload\":\x7b\"sources\":[\x7b\"name\":\"a\"," ++
        "\"content\":\"1\\n\\\"2\\\"\"\x7d],\"namespace\":\"\",\"language\":\"en\"\x7d\x7d\n") := by
  decide +kernel

end SourceDesk
