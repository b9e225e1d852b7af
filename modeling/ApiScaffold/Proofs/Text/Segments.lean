import ApiScaffold.Proofs.Text.Occurrence
import ApiScaffold.Text.LineBreak

/-! Texts as rows of lines: the segments between line feeds, and the text that they make up. -/
namespace ApiScaffold.Text

/-- Lines as the text behind another line, each with a line feed in front. -/
def following (lines : List (List Char)) : List Char :=
  lines.flatMap ('\n' :: ·)

@[simp] theorem following_nil : following [] = [] := rfl

@[simp] theorem following_cons (line : List Char) (lines : List (List Char)) :
    following (line :: lines) = '\n' :: (line ++ following lines) := by
  simp [following]

@[simp] theorem following_append (l₁ l₂ : List (List Char)) :
    following (l₁ ++ l₂) = following l₁ ++ following l₂ := by
  simp [following]

/-- Lines as the text in front of another line, each with its line feed. -/
def ended (lines : List (List Char)) : List Char :=
  lines.flatMap (· ++ ['\n'])

@[simp] theorem ended_nil : ended [] = [] := rfl

@[simp] theorem ended_cons (line : List Char) (lines : List (List Char)) :
    ended (line :: lines) = line ++ '\n' :: ended lines := by
  simp [ended]

@[simp] theorem ended_append (l₁ l₂ : List (List Char)) :
    ended (l₁ ++ l₂) = ended l₁ ++ ended l₂ := by
  simp [ended]

theorem toList_ofLines (lines : List String) :
    (ofLines lines).toList = ended (lines.map String.toList) := by
  rw [ofLines, String.toList_join, ended, List.flatMap_map, List.flatMap_map]
  simp

theorem segments_of_not_mem {α : Type} [DecidableEq α] {separator : α} {s : List α}
    (h : separator ∉ s) : segments separator s = [s] := by
  induction s with
  | nil => rfl
  | cons c s ih =>
    rw [List.mem_cons, not_or] at h
    rw [segments, if_neg (Ne.symm h.1), ih h.2, consLine]

theorem segments_append {α : Type} [DecidableEq α] (separator : α) (s t : List α) :
    segments separator (s ++ separator :: t) = segments separator s ++ segments separator t := by
  induction s with
  | nil => simp [segments]
  | cons c s ih =>
    rw [List.cons_append, segments, segments, ih]
    split
    · rfl
    · cases hs : segments separator s with
      | nil => exact absurd hs (segments_ne_nil separator s)
      | cons l ls => rfl

theorem segments_append_cons {α : Type} [DecidableEq α]
    {separator : α} {s : List α} (h : separator ∉ s)
    (t : List α) : segments separator (s ++ separator :: t) = s :: segments separator t := by
  rw [segments_append, segments_of_not_mem h, List.singleton_append]

/-- Lines without line feeds are the lines of the text that they make up. -/
theorem segments_following {line : List Char} {lines : List (List Char)} (hl : '\n' ∉ line)
    (hls : ∀ l ∈ lines, '\n' ∉ l) : segments '\n' (line ++ following lines) = line :: lines := by
  induction lines generalizing line with
  | nil => simpa using segments_of_not_mem hl
  | cons l ls ih =>
    rw [following_cons, segments_append_cons hl]
    rw [ih (hls l List.mem_cons_self) fun k hk => hls k (List.mem_cons_of_mem l hk)]

theorem segments_append_following (s : List Char)
    {lines : List (List Char)} (h : ∀ l ∈ lines, '\n' ∉ l) :
    segments '\n' (s ++ following lines) = segments '\n' s ++ lines := by
  cases lines with
  | nil => simp
  | cons l ls =>
    rw [following_cons, segments_append,
      segments_following (h l List.mem_cons_self) fun k hk => h k (List.mem_cons_of_mem l hk)]

/-- Every text is made up of its lines, which have no line feeds. -/
theorem exists_lines (s : List Char) : ∃ line lines, segments '\n' s = line :: lines ∧
    s = line ++ following lines ∧ ∀ l ∈ line :: lines, '\n' ∉ l := by
  induction s with
  | nil => exact ⟨[], [], rfl, rfl, by simp⟩
  | cons c s ih =>
    obtain ⟨line, lines, hseg, rfl, hn⟩ := ih
    by_cases hc : c = '\n'
    · refine ⟨[], line :: lines, ?_, by simp [hc], by simpa using hn⟩
      rw [segments, if_pos hc, hseg]
    · refine ⟨c :: line, lines, ?_, rfl, ?_⟩
      · rw [segments, if_neg hc, hseg, consLine]
      · intro l hl
        rcases List.mem_cons.1 hl with rfl | hl
        · have := hn line List.mem_cons_self
          simp [Ne.symm hc, this]
        · exact hn l (List.mem_cons_of_mem line hl)

theorem not_mem_of_mem_segments {α : Type} [DecidableEq α] {separator : α} {s piece : List α}
    (h : piece ∈ segments separator s) : separator ∉ piece := by
  induction s generalizing piece with
  | nil =>
    obtain rfl := List.mem_singleton.1 h
    simp
  | cons c s ih =>
    rw [segments] at h
    split at h
    · rcases List.mem_cons.1 h with rfl | h
      · simp
      · exact ih h
    · rename_i hc
      cases hs : segments separator s with
      | nil => exact absurd hs (segments_ne_nil separator s)
      | cons l ls =>
        rw [hs] at h ih
        rcases List.mem_cons.1 h with rfl | h
        · rw [List.mem_cons, not_or]
          exact ⟨Ne.symm hc, ih List.mem_cons_self⟩
        · exact ih (List.mem_cons_of_mem l h)

/-- Only the separator is in no piece. -/
theorem exists_mem_segments {α : Type} [DecidableEq α] {separator c : α} {s : List α} (hc : c ∈ s)
    (hne : c ≠ separator) : ∃ piece ∈ segments separator s, c ∈ piece := by
  obtain ⟨a, b, rfl⟩ := List.append_of_mem hc
  clear hc
  induction a with
  | nil =>
    rw [List.nil_append, segments, if_neg hne]
    cases hs : segments separator b with
    | nil => exact absurd hs (segments_ne_nil separator b)
    | cons l ls => exact ⟨c :: l, List.mem_cons_self, List.mem_cons_self⟩
  | cons d a ih =>
    obtain ⟨piece, hpiece, hmem⟩ := ih
    rw [List.cons_append, segments]
    split
    · exact ⟨piece, List.mem_cons_of_mem _ hpiece, hmem⟩
    · cases hs : segments separator (a ++ c :: b) with
      | nil => exact absurd hs (segments_ne_nil _ _)
      | cons l ls =>
        rw [hs] at hpiece
        rcases List.mem_cons.1 hpiece with rfl | hpiece
        · exact ⟨d :: piece, List.mem_cons_self, List.mem_cons_of_mem d hmem⟩
        · exact ⟨piece, List.mem_cons_of_mem _ hpiece, hmem⟩

theorem eq_of_segments {s line : List Char} {above below : List (List Char)}
    (h : segments '\n' s = above ++ line :: below) :
    s = ended above ++ (line ++ following below) := by
  induction above generalizing s with
  | nil =>
    obtain ⟨l, ls, hseg, rfl, -⟩ := exists_lines s
    obtain ⟨rfl, rfl⟩ := List.cons.inj (hseg.symm.trans h)
    simp
  | cons l above ih =>
    obtain ⟨l', ls, hseg, rfl, hn⟩ := exists_lines s
    rw [hseg, List.cons_append, List.cons.injEq] at h
    obtain ⟨rfl, rfl⟩ := h
    cases hls : above ++ line :: below with
    | nil => simp at hls
    | cons k ks =>
      have hrest : segments '\n' (k ++ following ks) = above ++ line :: below := by
        rw [hls] at hn ⊢
        exact segments_following (hn k (by simp)) fun j hj => hn j (by simp [hj])
      rw [following_cons, ih hrest, ended_cons, List.append_assoc, List.cons_append]

theorem segments_ended {line : List Char} {above below : List (List Char)}
    (h : ∀ l ∈ above ++ line :: below, '\n' ∉ l) :
    segments '\n' (ended above ++ (line ++ following below)) = above ++ line :: below := by
  induction above with
  | nil => exact segments_following (h line (by simp)) fun l hl => h l (by simp [hl])
  | cons l above ih =>
    rw [ended_cons, List.append_assoc, List.cons_append, segments_append_cons (h l (by simp)),
      ih fun k hk => h k (List.mem_cons_of_mem l hk), List.cons_append]

theorem infix_ended {line : List Char} {lines : List (List Char)} (h : line ∈ lines) :
    line <:+: ended lines := by
  obtain ⟨above, below, rfl⟩ := List.append_of_mem h
  refine ⟨ended above, '\n' :: ended below, ?_⟩
  simp [ended]

/-- A text that starts a new line is a row of lines behind another line. -/
theorem exists_following {s : List Char} (h : s = [] ∨ s.head? = some '\n') :
    ∃ lines, s = following lines ∧ ∀ l ∈ lines, '\n' ∉ l := by
  cases s with
  | nil => exact ⟨[], rfl, by simp⟩
  | cons c s =>
    obtain rfl : c = '\n' := by simpa using h
    obtain ⟨line, lines, -, rfl, hn⟩ := exists_lines s
    exact ⟨line :: lines, by simp, hn⟩

/-- A text that ends its last line is a row of lines in front of another line. -/
theorem exists_ended {s : List Char} (h : s = [] ∨ s.getLast? = some '\n') :
    ∃ lines, s = ended lines ∧ ∀ l ∈ lines, '\n' ∉ l := by
  rcases h with rfl | h
  · exact ⟨[], rfl, by simp⟩
  · obtain ⟨t, rfl⟩ : ∃ t, s = t ++ ['\n'] :=
      ⟨s.dropLast, (List.dropLast_append_getLast? '\n' h).symm⟩
    obtain ⟨line, lines, hseg, -, hn⟩ := exists_lines t
    obtain ⟨front, last, hlast⟩ : ∃ front last, line :: lines = front ++ [last] :=
      ⟨_, _, (List.dropLast_append_getLast (List.cons_ne_nil line lines)).symm⟩
    refine ⟨line :: lines, ?_, hn⟩
    have := eq_of_segments (hseg.trans hlast)
    rw [this, hlast]
    simp [ended]

/-- What has no line feed occurs in a text if it occurs in one of the lines. -/
theorem infix_iff_exists_line {p s : List Char} (hp : '\n' ∉ p) :
    p <:+: s ↔ ∃ line ∈ segments '\n' s, p <:+: line := by
  obtain ⟨line, lines, hseg, rfl, -⟩ := exists_lines s
  rw [hseg]
  clear hseg
  induction lines generalizing line with
  | nil => simp
  | cons l ls ih =>
    rw [following_cons, infix_append_cons_iff hp, ih]
    simp

end ApiScaffold.Text
