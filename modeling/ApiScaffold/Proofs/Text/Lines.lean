import ApiScaffold.Proofs.Text.Segments

/-! Lines of plain text: a line feed ends a line whatever follows, so what is appended behind one
has its own lines. -/
namespace ApiScaffold.Text

@[simp] theorem lines_nil : lines [] = [] := rfl

@[simp] theorem lines_return_lineFeed (s : List Char) : lines ('\r' :: '\n' :: s) = [] :: lines s :=
  rfl

theorem lines_cons {c : Char} {s : List Char} (h : ¬ (c = '\r' ∧ s.head? = some '\n')) :
    lines (c :: s) = if isLineBreak c then [] :: lines s else consLine c (lines s) := by
  rw [lines.eq_def]
  split
  · contradiction
  · rename_i he
    obtain ⟨rfl, rfl⟩ := List.cons.inj he
    exact absurd ⟨rfl, rfl⟩ h
  · rename_i he
    obtain ⟨rfl, rfl⟩ := List.cons.inj he
    rfl

@[simp] theorem lines_lineFeed (s : List Char) : lines ('\n' :: s) = [] :: lines s := by
  rw [lines_cons (by simp), if_pos (by decide)]

/-- What follows behind makes no difference to whether two characters in front end one line. -/
theorem lines_cons_append {c : Char} {s : List Char}
    (hs : s ≠ []) (h : ∀ r, c = '\r' → s = '\n' :: r → False) (t : List Char) :
    lines (c :: (s ++ t)) = if isLineBreak c then [] :: lines (s ++ t)
      else consLine c (lines (s ++ t)) := by
  refine lines_cons ?_
  rintro ⟨hc, hn⟩
  cases s with
  | nil => exact hs rfl
  | cons d s =>
    obtain rfl : d = '\n' := by simpa using hn
    exact h s hc rfl

theorem consLine_append {c : Char} {ls : List (List Char)} (h : ls ≠ []) (ms : List (List Char)) :
    consLine c (ls ++ ms) = consLine c ls ++ ms := by
  cases ls with
  | nil => exact absurd rfl h
  | cons l ls => rfl

theorem lines_ne_nil {s : List Char} (h : s ≠ []) : lines s ≠ [] := by
  cases s with
  | nil => exact absurd rfl h
  | cons c s =>
    by_cases hc : c = '\r' ∧ s.head? = some '\n'
    · obtain ⟨rfl, hn⟩ := hc
      obtain ⟨r, rfl⟩ := List.head?_eq_some_iff.1 hn
      simp
    · rw [lines_cons hc]
      split
      · simp
      · cases lines s <;> simp [consLine]

/-- Behind a line feed the lines begin anew. -/
theorem lines_append_lineFeed (s t : List Char) :
    lines (s ++ '\n' :: t) = lines (s ++ ['\n']) ++ lines t := by
  induction s using lines.induct with
  | case1 => simp
  | case2 rest ih => simpa using ih
  | case3 c rest hno hbreak ih =>
    by_cases hrest : rest = []
    · subst hrest
      by_cases hc : c = '\r'
      · simp [hc]
      · have hcons (u : List Char) := lines_cons (c := c) (s := u) fun h => hc h.1
        rw [List.cons_append, List.cons_append, hcons, hcons, if_pos hbreak, if_pos hbreak,
          List.nil_append, List.nil_append, lines_lineFeed, lines_lineFeed]
        rfl
    · rw [List.cons_append, List.cons_append, lines_cons_append hrest hno,
        lines_cons_append hrest hno, if_pos hbreak, if_pos hbreak, ih, List.cons_append]
  | case4 c rest hno hbreak ih =>
    have hc : c ≠ '\r' := by
      rintro rfl
      exact hbreak (by decide)
    have hcons (u : List Char) := lines_cons (c := c) (s := u) fun h => hc h.1
    rw [List.cons_append, List.cons_append, hcons, hcons, if_neg hbreak, if_neg hbreak, ih,
      consLine_append (lines_ne_nil (by simp))]

theorem lines_lineFeed_eq (s : List Char) :
    lines (s ++ ['\n']) = lines s ∨ lines (s ++ ['\n']) = lines s ++ [[]] := by
  induction s using lines.induct with
  | case1 => exact .inr rfl
  | case2 rest ih => simpa using ih
  | case3 c rest hno hbreak ih =>
    by_cases hrest : rest = []
    · subst hrest
      rw [lines_cons (by simp), if_pos hbreak]
      by_cases hc : c = '\r'
      · simp [hc]
      · rw [List.cons_append, lines_cons (fun h => hc h.1), if_pos hbreak]
        simp
    · have hbare := lines_cons_append hrest hno []
      rw [List.append_nil, if_pos hbreak] at hbare
      rw [List.cons_append, lines_cons_append hrest hno, if_pos hbreak, hbare]
      simpa using ih
  | case4 c rest hno hbreak ih =>
    have hc : c ≠ '\r' := by
      rintro rfl
      exact hbreak (by decide)
    have hcons (u : List Char) := lines_cons (c := c) (s := u) fun h => hc h.1
    rw [List.cons_append, hcons, hcons, if_neg hbreak, if_neg hbreak]
    by_cases hrest : rest = []
    · subst hrest
      simp [consLine]
    · rcases ih with ih | ih
      · exact .inl (by rw [ih])
      · exact .inr (by rw [ih, consLine_append (lines_ne_nil hrest)])

theorem lines_append {s : List Char} (h : s = [] ∨ s.getLast? = some '\n') (t : List Char) :
    lines (s ++ t) = lines s ++ lines t := by
  rcases h with rfl | h
  · rfl
  · obtain ⟨r, rfl⟩ : ∃ r, s = r ++ ['\n'] :=
      ⟨s.dropLast, (List.dropLast_append_getLast? '\n' h).symm⟩
    rw [List.append_assoc, List.singleton_append, lines_append_lineFeed]

theorem lines_of_not_break {l : List Char} (h : ∀ c ∈ l, isLineBreak c = false) :
    lines (l ++ ['\n']) = [l] := by
  induction l with
  | nil => simp
  | cons c l ih =>
    have hc := h c List.mem_cons_self
    have hr : c ≠ '\r' := by
      rintro rfl
      cases hc
    rw [List.cons_append, lines_cons (fun h => hr h.1), hc,
      ih fun d hd => h d (List.mem_cons_of_mem c hd)]
    rfl

/-- Lines that hold no ends are the lines of the text that they make up. -/
theorem lines_ended {ls : List (List Char)} (h : ∀ l ∈ ls, ∀ c ∈ l, isLineBreak c = false) :
    lines (ended ls) = ls := by
  induction ls with
  | nil => rfl
  | cons l ls ih =>
    rw [ended_cons, lines_append_lineFeed, lines_of_not_break (h l List.mem_cons_self),
      ih fun k hk => h k (List.mem_cons_of_mem l hk), List.singleton_append]

end ApiScaffold.Text
