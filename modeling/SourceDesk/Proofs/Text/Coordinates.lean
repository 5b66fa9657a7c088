import SourceDesk.Text.Coordinates

/-! Coordinates by counting. A walk over the characters before a place counts their line feeds
and what came since the last of them; an offset past the end of a text is its end. -/
namespace SourceDesk.Coordinates

/-- The place behind some characters: one line more than they have line feeds, and one column
more than they have characters since the last line feed. -/
def behind (before : List Char) : Coordinates :=
  ⟨before.count '\n' + 1, (before.reverse.takeWhile (· != '\n')).length + 1⟩

theorem advance_behind (before : List Char) (c : Char) :
    (behind before).advance c = behind (before ++ [c]) := by
  by_cases hc : c = '\n'
  · subst hc
    simp [behind, advance]
  · have hnat : c.toNat ≠ 10 := fun h => hc (Char.toNat_inj.mp h)
    simp [behind, advance, hc, hnat]

theorem foldl_advance (before : List Char) : before.foldl advance origin = behind before := by
  suffices h : ∀ done, before.foldl advance (behind done) = behind (done ++ before) from h []
  induction before with
  | nil => simp
  | cons c before ih =>
      intro done
      rw [List.foldl_cons, advance_behind, ih, List.append_assoc]
      rfl

theorem ofOffset_eq_behind (content : String) (offset : Nat) :
    ofOffset content offset = behind (content.toList.take (min offset content.length)) := by
  rw [ofOffset, foldl_advance, ← String.length_toList, ← List.take_eq_take_min]

end SourceDesk.Coordinates
