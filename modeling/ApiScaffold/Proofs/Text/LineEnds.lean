import ApiScaffold.Proofs.Text.Replacement
import ApiScaffold.Proofs.Text.Segments

/-! Line ends with carriage returns and without them. A text in the one style is the same rows of
characters as in the other, with another text between them. -/
namespace ApiScaffold.Text
variable {old new s x y : List Char} {c : Char}

/-- The text with a carriage return in front of each line feed. -/
def withReturns (s : List Char) : List Char :=
  replace ['\n'] ['\r', '\n'] s

/-- The text without the carriage returns that stand in front of line feeds. -/
def withoutReturns (s : List Char) : List Char :=
  replace ['\r', '\n'] ['\n'] s

/-- What stands between rows of characters is replaced, and nothing else if none of its occurrences
can start in them. -/
theorem replace_intercalate {rows : List (List Char)}
    (hold : old.head? = some c) (hrows : ∀ row ∈ rows, c ∉ row)
    (new : List Char) : replace old new (old.intercalate rows) = new.intercalate rows := by
  have hne : old ≠ [] := by
    rintro rfl
    cases hold
  induction rows with
  | nil => rfl
  | cons row rows ih =>
    have hrow := hrows row List.mem_cons_self
    cases rows with
    | nil =>
      rw [List.intercalate_singleton, List.intercalate_singleton, ← List.append_nil row,
        replace_append_of_not_mem hold hrow, replace_nil]
    | cons row' rows =>
      rw [List.intercalate_cons_cons, List.intercalate_cons_cons, List.append_assoc,
        replace_append_of_not_mem hold hrow, replace_self_append hne,
        ih fun r hr => hrows r (List.mem_cons_of_mem row hr), List.append_assoc]

theorem intercalate_cons (between row : List Char) (rows : List (List Char)) :
    between.intercalate (row :: rows) = row ++ rows.flatMap (between ++ ·) := by
  induction rows generalizing row with
  | nil => simp
  | cons row' rows ih =>
    rw [List.intercalate_cons_cons, ih row', List.flatMap_cons, List.append_assoc,
      List.append_assoc]

theorem intercalate_append_cons (between row : List Char) (above below : List (List Char)) :
    between.intercalate (above ++ row :: below) =
      above.flatMap (· ++ between) ++ (row ++ below.flatMap (between ++ ·)) := by
  induction above with
  | nil => exact intercalate_cons between row below
  | cons row' above ih =>
    rw [List.cons_append, List.intercalate_cons_of_ne_nil (by simp), ih]
    simp only [List.flatMap_cons, List.append_assoc]

theorem infix_intercalate {row : List Char} {rows : List (List Char)} (between : List Char)
    (h : row ∈ rows) : row <:+: between.intercalate rows := by
  obtain ⟨above, below, rfl⟩ := List.append_of_mem h
  rw [intercalate_append_cons, ← List.append_assoc]
  exact List.infix_append _ row _

theorem intercalate_segments (s : List Char) : ['\n'].intercalate (segments '\n' s) = s := by
  obtain ⟨line, lines, hseg, hs, -⟩ := exists_lines s
  rw [hseg, intercalate_cons]
  exact hs.symm

theorem segments_intercalate {rows : List (List Char)} (h : rows ≠ []) :
    segments '\n' (['\n'].intercalate rows) = rows.flatMap (segments '\n') := by
  induction rows with
  | nil => exact absurd rfl h
  | cons row rows ih =>
    cases rows with
    | nil => simp
    | cons row' rows =>
      rw [List.intercalate_cons_cons, List.append_assoc, List.singleton_append, segments_append,
        ih (List.cons_ne_nil row' rows), List.flatMap_cons (x := row)]

theorem flatMap_segments (s : List Char) :
    (segments '\n' s).flatMap (segments '\n') = segments '\n' s := by
  rw [← segments_intercalate (segments_ne_nil '\n' s), intercalate_segments]

/-- A text is known by its lines. -/
theorem segments_injective : Function.Injective (segments '\n') := by
  intro s t h
  rw [← intercalate_segments s, h, intercalate_segments]

theorem withReturns_eq (s : List Char) :
    withReturns s = ['\r', '\n'].intercalate (segments '\n' s) := by
  conv_lhs => rw [← intercalate_segments s]
  exact replace_intercalate rfl (fun _ h => not_mem_of_mem_segments h) _

/-- The lines of a text without carriage returns, told by the rows between its carriage returns
and line feeds. -/
theorem segments_withoutReturns {rows : List (List Char)}
    (hne : rows ≠ []) (h : ∀ row ∈ rows, '\r' ∉ row) :
    segments '\n' (withoutReturns (['\r', '\n'].intercalate rows)) =
      rows.flatMap (segments '\n') := by
  rw [← segments_intercalate hne]
  exact congrArg (segments '\n') (replace_intercalate rfl h _)

end ApiScaffold.Text
