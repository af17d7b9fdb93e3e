/-! # Overwriting a run of entries

Block writes, program loads and register fills all place a list into a vector from some start on.
`getElem_overwrite` says what every entry is afterwards, and `toList_overwrite` says it of all of
them at once where the list fits.
-/

namespace Chip8

/-- The vector with the listed values placed one after another from `start` on. Values that would
lie past its end are dropped. -/
def overwrite {α : Type} {n : Nat} (entries : Vector α n) (start : Nat) : List α → Vector α n
  | [] => entries
  | value :: values => overwrite (entries.setIfInBounds start value) (start + 1) values

theorem getElem_overwrite {α : Type} {n : Nat} (entries : Vector α n) (start : Nat)
    (values : List α) (i : Nat) (inside : i < n) :
    (overwrite entries start values)[i] =
      if start ≤ i then values[i - start]?.getD entries[i] else entries[i] := by
  induction values generalizing entries start with
  | nil => simp [overwrite]
  | cons value values ih =>
    rw [overwrite, ih, Vector.getElem_setIfInBounds]
    rcases Nat.lt_trichotomy start i with before | rfl | after
    · obtain ⟨k, rfl⟩ : ∃ k, i = start + (k + 1) := ⟨i - start - 1, by omega⟩
      have shifted : start + (k + 1) - (start + 1) = k := by omega
      have offset : start + (k + 1) - start = k + 1 := by omega
      simp [shifted, offset, show start + 1 ≤ start + (k + 1) by omega]
    · rw [if_neg (Nat.not_succ_le_self start), if_pos rfl, if_pos (Nat.le_refl start), Nat.sub_self]
      rfl
    · simp [show ¬ start + 1 ≤ i by omega, show ¬ start ≤ i by omega, show start ≠ i by omega]

/-- Values that fit take the place of as many entries. -/
theorem toList_overwrite {α : Type} {n : Nat} (entries : Vector α n) (start : Nat)
    (values : List α) (fits : start + values.length ≤ n) : (overwrite entries start values).toList =
      entries.toList.take start ++ values ++ entries.toList.drop (start + values.length) := by
  induction values generalizing entries start with
  | nil => simp [overwrite]
  | cons value values ih =>
    rw [List.length_cons] at fits
    have inside : start < entries.toList.length := by
      rw [Vector.length_toList]
      omega
    have written : (entries.setIfInBounds start value).toList =
        entries.toList.take start ++ [value] ++ entries.toList.drop (start + 1) := by
      rw [Vector.toList_setIfInBounds, List.set_eq_take_append_cons_drop, if_pos inside,
        List.append_assoc, List.singleton_append]
    have size : (entries.toList.take start ++ [value]).length = start + 1 := by
      rw [List.length_append, List.length_take_of_le (Nat.le_of_lt inside),
        List.length_singleton]
    have next : start + (values.length + 1) = start + 1 + values.length := by omega
    rw [overwrite, ih _ _ (by omega), written, List.take_left' size, ← List.drop_drop,
      List.drop_left' size, List.drop_drop, List.length_cons, next]
    simp only [List.append_assoc, List.cons_append, List.nil_append]

end Chip8
