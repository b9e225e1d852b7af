import ApiScaffold.Proofs.Calendar
import ApiScaffold.Proofs.Migration.Named

/-! The order of migrations. The names of their directories are ordered by time, and at the same
second by purpose, so an earlier migration stands before a later one in every listing. -/
namespace ApiScaffold.Migration
open LocalTime
variable {name name' : String} {time time' : LocalTime}

theorem directoryName_lt_iff (time : LocalTime) :
    directoryName name time < directoryName name' time ↔ name < name' := by
  rw [String.lt_iff_toList_lt, String.lt_iff_toList_lt, toList_directoryName, toList_directoryName,
    Text.append_lt_append_iff_of_length rfl]
  simp

theorem directoryName_inj (time : LocalTime) :
    directoryName name time = directoryName name' time ↔ name = name' := by
  rw [← String.toList_inj, toList_directoryName, toList_directoryName, List.append_cancel_left_eq,
    String.toList_inj]

theorem directoryName_lt (ht : time.Valid) (ht' : time'.Valid) (h : time.elapsed < time'.elapsed)
    (name name' : String) : directoryName name time < directoryName name' time' := by
  rw [String.lt_iff_toList_lt, toList_directoryName, toList_directoryName, List.append_assoc,
    List.append_assoc]
  exact stamp_append_lt ht ht' h _ _

/-- The names of directories are compared as the times, to the second, and then the purposes. -/
theorem compare_directoryName (ht : time.Valid) (ht' : time'.Valid) (name name' : String) :
    compare (directoryName name time) (directoryName name' time') =
        (compare time.elapsed time'.elapsed).then (compare name name') ∧
      (time.elapsed < time'.elapsed → directoryName name time < directoryName name' time') ∧
      (directoryName name time = directoryName name' time' ↔ time = time' ∧ name = name') := by
  have hcompare (a b : String) : compare a b = compareOfLessAndEq a b := rfl
  rcases Nat.lt_trichotomy time.elapsed time'.elapsed with hlt | heq | hgt
  · have hnames := directoryName_lt ht ht' hlt name name'
    refine ⟨?_, fun _ => hnames, iff_of_false hnames.ne fun h => hlt.ne (h.1 ▸ rfl)⟩
    rw [Nat.compare_eq_lt.2 hlt, hcompare, compareOfLessAndEq_eq_lt.2 hnames]
    rfl
  · obtain rfl := eq_of_elapsed_eq ht ht' heq
    refine ⟨?_, fun h => absurd h (Nat.lt_irrefl _), by simp [directoryName_inj]⟩
    rw [Nat.compare_eq_eq.2 rfl, hcompare, hcompare]
    simp only [compareOfLessAndEq, directoryName_lt_iff, directoryName_inj]
    rfl
  · have hnames := directoryName_lt ht' ht hgt name' name
    refine ⟨?_, fun h => absurd h hgt.not_gt, iff_of_false hnames.ne' fun h => hgt.ne (h.1 ▸ rfl)⟩
    rw [Nat.compare_eq_gt.2 hgt, hcompare]
    simp [compareOfLessAndEq, hnames.not_gt, hnames.ne']

/-- Over the end of a year the earlier migration stands first, though its purpose would not. -/
theorem compare_directoryName_newYear :
    (⟨2023, 12, 31, 23, 59, 59⟩ : LocalTime).Valid ∧ (⟨2024, 1, 1, 0, 0, 0⟩ : LocalTime).Valid ∧
      compare (directoryName "users" ⟨2023, 12, 31, 23, 59, 59⟩)
        (directoryName "orders" ⟨2024, 1, 1, 0, 0, 0⟩) = .lt := by
  have hbefore : (⟨2023, 12, 31, 23, 59, 59⟩ : LocalTime).Valid := by constructor <;> decide
  have hafter : (⟨2024, 1, 1, 0, 0, 0⟩ : LocalTime).Valid := by constructor <;> decide
  refine ⟨hbefore, hafter, ?_⟩
  rw [(compare_directoryName hbefore hafter "users" "orders").1]
  decide

end ApiScaffold.Migration
