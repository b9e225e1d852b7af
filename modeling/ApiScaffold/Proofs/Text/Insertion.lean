import Mathlib.Data.List.Infix

/-! Rows of lines that grow below a marked line: new lines follow the run of entries that
stands there. Below one mark insertions add up, and below two marks they do not get into
each other's way. -/
namespace ApiScaffold.Text
variable {α : Type} {marks isEntry marks' isEntry' : α → Bool} {new new' lines : List α} {m m' : α}

/-- New lines behind the run of entries in front. -/
def extendRun (isEntry : α → Bool) (new lines : List α) : List α :=
  lines.takeWhile isEntry ++ (new ++ lines.dropWhile isEntry)

/-- New lines behind the run of entries below the first marked line. -/
def insertBelow (marks isEntry : α → Bool) (new : List α) : List α → List α
  | [] => []
  | line :: lines =>
    if marks line then line :: extendRun isEntry new lines
      else line :: insertBelow marks isEntry new lines

def runBelow (marks isEntry : α → Bool) : List α → List α
  | [] => []
  | line :: lines => if marks line then lines.takeWhile isEntry else runBelow marks isEntry lines

theorem extendRun_cons (isEntry : α → Bool) (new : List α) (l : α) (lines : List α) :
    extendRun isEntry new (l :: lines) = if isEntry l then l :: extendRun isEntry new lines
      else new ++ l :: lines := by
  unfold extendRun
  cases h : isEntry l <;> simp [h]

theorem extendRun_append {above : List α} (h : ∀ l ∈ above, isEntry l = true) (new lines : List α) :
    extendRun isEntry new (above ++ lines) = above ++ extendRun isEntry new lines := by
  induction above with
  | nil => rfl
  | cons l above ih =>
    rw [List.cons_append, extendRun_cons, if_pos (h l List.mem_cons_self),
      ih fun k hk => h k (List.mem_cons_of_mem l hk), List.cons_append]

theorem extendRun_extendRun (h : ∀ l ∈ new, isEntry l = true) :
    extendRun isEntry new' (extendRun isEntry new lines) =
      extendRun isEntry (new ++ new') lines := by
  induction lines with
  | nil => simpa [extendRun] using extendRun_append h new' []
  | cons l lines ih =>
    rw [extendRun_cons, extendRun_cons]
    cases hl : isEntry l with
    | true => rw [if_pos rfl, if_pos rfl, extendRun_cons, if_pos hl, ih]
    | false =>
      rw [if_neg Bool.false_ne_true, if_neg Bool.false_ne_true, extendRun_append h, extendRun_cons,
        if_neg (by simp [hl]), List.append_assoc]

theorem extendRun_append_cons (h : isEntry m = false) (above below : List α) :
    extendRun isEntry new (above ++ m :: below) = extendRun isEntry new above ++ m :: below := by
  induction above with
  | nil => simp [extendRun, h]
  | cons l above ih =>
    rw [List.cons_append, extendRun_cons, extendRun_cons, ih]
    split <;> simp

/-- Where no entry is the new lines come first. -/
theorem extendRun_of_forall (h : ∀ l ∈ lines, isEntry l = false) :
    extendRun isEntry new lines = new ++ lines := by
  cases lines with
  | nil => simp [extendRun]
  | cons l lines => rw [extendRun_cons, if_neg (by simp [h l List.mem_cons_self])]

theorem insertBelow_append_cons (isEntry : α → Bool) (new : List α) {above : List α}
    (ha : ∀ l ∈ above, marks l = false) (hm : marks m = true) (below : List α) :
    insertBelow marks isEntry new (above ++ m :: below) =
      above ++ m :: extendRun isEntry new below := by
  induction above with
  | nil => rw [List.nil_append, insertBelow, if_pos hm, List.nil_append]
  | cons l above ih =>
    have hl := ha l List.mem_cons_self
    rw [List.cons_append, insertBelow, if_neg (by simp [hl]),
      ih fun k hk => ha k (List.mem_cons_of_mem l hk), List.cons_append]

/-- Insertions below one mark add up, in their order. -/
theorem insertBelow_insertBelow (h : ∀ l ∈ new, isEntry l = true) :
    insertBelow marks isEntry new' (insertBelow marks isEntry new lines) =
      insertBelow marks isEntry (new ++ new') lines := by
  induction lines with
  | nil => rfl
  | cons l lines ih =>
    cases hl : marks l with
    | true => simp only [insertBelow, hl, if_true, extendRun_extendRun h]
    | false => simp only [insertBelow, hl, Bool.false_eq_true, if_false, ih]

theorem insertBelow_nil (marks isEntry : α → Bool) (lines : List α) :
    insertBelow marks isEntry [] lines = lines := by
  induction lines with
  | nil => rfl
  | cons l lines ih => simp [insertBelow, extendRun, ih]

/-- Each line stays, in its order, and the new lines stand together. -/
theorem exists_split_insertBelow (marks isEntry : α → Bool) (new lines : List α) :
    ∃ above below, lines = above ++ below ∧
      (insertBelow marks isEntry new lines = lines ∨
        insertBelow marks isEntry new lines = above ++ (new ++ below)) := by
  induction lines with
  | nil => exact ⟨[], [], rfl, .inl rfl⟩
  | cons l lines ih =>
    cases hl : marks l with
    | true =>
      refine ⟨l :: lines.takeWhile isEntry, lines.dropWhile isEntry, ?_, .inr ?_⟩
      · rw [List.cons_append, List.takeWhile_append_dropWhile]
      · simp only [insertBelow, hl, if_true, extendRun, List.cons_append]
    | false =>
      obtain ⟨above, below, rfl, h⟩ := ih
      refine ⟨l :: above, below, rfl, ?_⟩
      simp only [insertBelow, hl, Bool.false_eq_true, if_false, List.cons_append,
        List.cons.injEq, true_and]
      exact h

theorem sublist_insertBelow (marks isEntry : α → Bool) (new lines : List α) :
    lines.Sublist (insertBelow marks isEntry new lines) := by
  obtain ⟨above, below, rfl, h | h⟩ := exists_split_insertBelow marks isEntry new lines
  · rw [h]
  · rw [h]
    exact (List.sublist_append_right new below).append_left above

/-- The first line with a mark stays the first if no new line has the mark. -/
theorem find?_insertBelow (hfind : lines.find? marks' = some m)
    (hnew : ∀ l ∈ new, marks' l = false) :
    (insertBelow marks isEntry new lines).find? marks' = some m := by
  have hnone : new.find? marks' = none := List.find?_eq_none.2 fun l hl => by simp [hnew l hl]
  obtain ⟨above, below, rfl, h | h⟩ := exists_split_insertBelow marks isEntry new lines
  · rw [h, hfind]
  · rw [h, List.find?_append, List.find?_append, hnone, Option.none_or, ← List.find?_append, hfind]

/-- The first line with the one mark stands above the first line with the other. -/
def Above (marks marks' : α → Bool) (m m' : α) (lines : List α) : Prop :=
  ∃ above between below, lines = above ++ m :: (between ++ m' :: below) ∧
    (∀ l ∈ above, marks l = false ∧ marks' l = false) ∧ ∀ l ∈ between, marks' l = false

theorem above_or_above (hfind : lines.find? marks = some m) (hfind' : lines.find? marks' = some m')
    (hm : marks' m = false) (hm' : marks m' = false) :
    Above marks marks' m m' lines ∨ Above marks' marks m' m lines := by
  obtain ⟨hmm, above, below, rfl, ha⟩ := List.find?_eq_some_iff_append.1 hfind
  obtain ⟨hmm', above', below', he, ha'⟩ := List.find?_eq_some_iff_append.1 hfind'
  simp only [Bool.not_eq_eq_eq_not, Bool.not_true] at ha ha'
  rcases List.append_eq_append_iff.1 he with ⟨c, rfl, hc⟩ | ⟨c, rfl, hc⟩
  · left
    cases c with
    | nil =>
      obtain ⟨rfl, -⟩ := List.cons.inj hc
      simp [hmm'] at hm
    | cons l c =>
      rw [List.cons_append, List.cons.injEq] at hc
      obtain ⟨rfl, rfl⟩ := hc
      exact ⟨above, c, below', rfl, fun k hk => ⟨ha k hk, ha' k (List.mem_append_left _ hk)⟩,
        fun k hk => ha' k (List.mem_append_right _ (List.mem_cons_of_mem _ hk))⟩
  · right
    cases c with
    | nil =>
      obtain ⟨rfl, -⟩ := List.cons.inj hc
      simp [hmm] at hm'
    | cons l c =>
      rw [List.cons_append, List.cons.injEq] at hc
      obtain ⟨rfl, rfl⟩ := hc
      exact ⟨above', c, below, by simp, fun k hk => ⟨ha' k hk, ha k (List.mem_append_left _ hk)⟩,
        fun k hk => ha k (List.mem_append_right _ (List.mem_cons_of_mem _ hk))⟩

private theorem insertBelow_of_above (isEntry isEntry' : α → Bool)
    (new' below : List α) {above between : List α} (hm : marks m = true) (hm' : marks' m' = true)
    (habove : ∀ l ∈ above, marks l = false ∧ marks' l = false) (hother : marks' m = false)
    (hbetween : ∀ l ∈ between, marks' l = false) (hstop : isEntry m' = false)
    (hnew : ∀ l ∈ new, marks' l = false) : insertBelow marks' isEntry' new'
    (insertBelow marks isEntry new (above ++ m :: (between ++ m' :: below))) =
      above ++ m :: (extendRun isEntry new between ++ m' :: extendRun isEntry' new' below) ∧
    insertBelow marks isEntry new
      (insertBelow marks' isEntry' new' (above ++ m :: (between ++ m' :: below))) =
      above ++ m :: (extendRun isEntry new between ++ m' :: extendRun isEntry' new' below) := by
  have hleft : ∀ l ∈ above, marks l = false := fun l hl => (habove l hl).1
  have hup : ∀ l ∈ above ++ m :: between, marks' l = false := by
    intro l hl
    rcases List.mem_append.1 hl with hl | hl
    · exact (habove l hl).2
    · rcases List.mem_cons.1 hl with rfl | hl
      · exact hother
      · exact hbetween l hl
  have hrun : ∀ l ∈ above ++ m :: extendRun isEntry new between, marks' l = false := by
    intro l hl
    simp only [extendRun, List.mem_append, List.mem_cons] at hl
    rcases hl with hl | rfl | hl | hl | hl
    · exact (habove l hl).2
    · exact hother
    · exact hbetween l ((List.takeWhile_sublist isEntry).mem hl)
    · exact hnew l hl
    · exact hbetween l ((List.dropWhile_sublist isEntry).mem hl)
  constructor
  · rw [insertBelow_append_cons isEntry new hleft hm, extendRun_append_cons hstop]
    have := insertBelow_append_cons isEntry' new' hrun hm' below
    simpa using this
  · have := insertBelow_append_cons isEntry' new' hup hm' below
    rw [List.append_assoc, List.cons_append] at this
    rw [this, List.append_assoc, List.cons_append, insertBelow_append_cons isEntry new hleft hm,
      extendRun_append_cons hstop]

/-- Insertions below two marks may change places. -/
theorem insertBelow_comm (hfind : lines.find? marks = some m)
    (hfind' : lines.find? marks' = some m') (hm : marks' m = false)
    (hm' : marks m' = false) (hstop : isEntry' m = false) (hstop' : isEntry m' = false)
    (hnew : ∀ l ∈ new, marks' l = false) (hnew' : ∀ l ∈ new', marks l = false) :
    insertBelow marks isEntry new (insertBelow marks' isEntry' new' lines) =
      insertBelow marks' isEntry' new' (insertBelow marks isEntry new lines) := by
  have hmm := List.find?_some hfind
  have hmm' := List.find?_some hfind'
  rcases above_or_above hfind hfind' hm hm' with
    ⟨above, between, below, rfl, habove, hbetween⟩ | ⟨above, between, below, rfl, habove, hbetween⟩
  · obtain ⟨h, h'⟩ :=
      insertBelow_of_above isEntry isEntry' new' below hmm hmm' habove hm hbetween hstop' hnew
    rw [h, h']
  · obtain ⟨h, h'⟩ :=
      insertBelow_of_above isEntry' isEntry new below hmm' hmm habove hm' hbetween hstop hnew'
    rw [h, h']

theorem runBelow_append_cons (isEntry : α → Bool)
    {above : List α} (ha : ∀ l ∈ above, marks l = false) (hm : marks m = true) (below : List α) :
    runBelow marks isEntry (above ++ m :: below) = below.takeWhile isEntry := by
  induction above with
  | nil => rw [List.nil_append, runBelow, if_pos hm]
  | cons l above ih =>
    rw [List.cons_append, runBelow, if_neg (by simp [ha l List.mem_cons_self]),
      ih fun k hk => ha k (List.mem_cons_of_mem l hk)]

/-- The runs below two marks of which the one comes first. -/
private theorem runBelow_of_above (isEntry' : α → Bool) (below : List α) {above between : List α}
    (hm : marks m = true) (hm' : marks' m' = true)
    (habove : ∀ l ∈ above, marks l = false ∧ marks' l = false) (hother : marks' m = false)
    (hbetween : ∀ l ∈ between, marks' l = false) (hstop : isEntry m' = false) :
    runBelow marks isEntry (above ++ m :: (between ++ m' :: below)) = between.takeWhile isEntry ∧
      runBelow marks' isEntry' (above ++ m :: (between ++ m' :: below)) =
        below.takeWhile isEntry' := by
  constructor
  · rw [runBelow_append_cons isEntry (fun l hl => (habove l hl).1) hm]
    induction between with
    | nil => simp [hstop]
    | cons l between ih =>
      rw [List.cons_append, List.takeWhile_cons, List.takeWhile_cons,
        ih fun k hk => hbetween k (List.mem_cons_of_mem l hk)]
  · have hup : ∀ l ∈ above ++ m :: between, marks' l = false := by
      intro l hl
      rcases List.mem_append.1 hl with hl | hl
      · exact (habove l hl).2
      · rcases List.mem_cons.1 hl with rfl | hl
        · exact hother
        · exact hbetween l hl
    simpa using runBelow_append_cons isEntry' hup hm' below

/-- A line in front of lines comes to the same as behind them only if they are all equal to it. -/
theorem append_singleton_eq_cons_iff {e : α} {run : List α} :
    run ++ [e] = e :: run ↔ ∀ l ∈ run, l = e := by
  induction run with
  | nil => simp
  | cons l run ih =>
    rw [List.cons_append, List.cons.injEq, List.forall_mem_cons]
    constructor
    · rintro ⟨rfl, h⟩
      exact ⟨rfl, ih.1 h⟩
    · rintro ⟨rfl, h⟩
      exact ⟨rfl, ih.2 h⟩

/-- A new line at the end of a run stands at its start if it is equal to each line of the run. -/
theorem extendRun_eq_cons_iff {e : α} :
    extendRun isEntry [e] lines = e :: lines ↔ ∀ l ∈ lines.takeWhile isEntry, l = e := by
  conv_lhs =>
    rhs; rw [← List.takeWhile_append_dropWhile (p := isEntry) (l := lines), ← List.cons_append]
  rw [extendRun, ← List.append_assoc, List.append_cancel_right_eq, append_singleton_eq_cons_iff]

theorem extendRun_false (new lines : List α) :
    extendRun (fun _ => false) new lines = new ++ lines :=
  extendRun_of_forall fun _ _ => rfl

/-- Two insertions where the one mark comes first, at the end of the runs or in front of them. -/
private theorem extendRun_eq_extendRun_iff {e e' : α} (above between below : List α) :
    above ++ m :: (extendRun isEntry [e] between ++ m' :: extendRun isEntry' [e'] below) = above ++
      m :: (extendRun (fun _ => false) [e] between ++ m' :: extendRun (fun _ => false) [e'] below) ↔
      (∀ l ∈ between.takeWhile isEntry, l = e) ∧ ∀ l ∈ below.takeWhile isEntry', l = e' := by
  rw [extendRun_false, extendRun_false, List.append_cancel_left_eq,
    List.cons.injEq, ← extendRun_eq_cons_iff, ← extendRun_eq_cons_iff]
  constructor
  · rintro ⟨-, h⟩
    have hlen : (extendRun isEntry [e] between).length = (e :: between).length := by
      have := congrArg List.length (List.takeWhile_append_dropWhile (p := isEntry) (l := between))
      simp only [extendRun, List.length_append, List.length_cons, List.length_nil] at this ⊢
      omega
    obtain ⟨hleft, hright⟩ := List.append_inj h hlen
    exact ⟨hleft, (List.cons.inj hright).2⟩
  · rintro ⟨hleft, hright⟩
    rw [hleft, hright]
    exact ⟨rfl, rfl⟩

/-- New lines below two marks come to stand at the ends of the runs there as well as in front of the
runs only if the runs are made up of the same lines. -/
theorem insertBelow_eq_insertBelow_iff {e e' : α} (hfind : lines.find? marks = some m)
    (hfind' : lines.find? marks' = some m') (hm : marks' m = false) (hm' : marks m' = false)
    (hstop : isEntry' m = false) (hstop' : isEntry m' = false)
    (he : marks' e = false) (he' : marks e' = false) :
    insertBelow marks' isEntry' [e'] (insertBelow marks isEntry [e] lines) =
        insertBelow marks' (fun _ => false) [e'] (insertBelow marks (fun _ => false) [e] lines) ↔
      (∀ l ∈ runBelow marks isEntry lines, l = e) ∧
      ∀ l ∈ runBelow marks' isEntry' lines, l = e' := by
  have hmm := List.find?_some hfind
  have hmm' := List.find?_some hfind'
  rcases above_or_above hfind hfind' hm hm' with
    ⟨above, between, below, rfl, habove, hbetween⟩ | ⟨above, between, below, rfl, habove, hbetween⟩
  · have hnew : ∀ l ∈ [e], marks' l = false := by simpa using he
    obtain ⟨h, -⟩ :=
      insertBelow_of_above isEntry isEntry' [e'] below hmm hmm' habove hm hbetween hstop' hnew
    obtain ⟨h', -⟩ :=
      insertBelow_of_above (fun _ => false) (fun _ => false) [e'] below hmm hmm' habove hm
      hbetween rfl hnew
    obtain ⟨hrun, hrun'⟩ := runBelow_of_above isEntry' below hmm hmm' habove hm hbetween hstop'
    rw [h, h', hrun, hrun', extendRun_eq_extendRun_iff]
  · have hnew : ∀ l ∈ [e'], marks l = false := by simpa using he'
    obtain ⟨-, h⟩ :=
      insertBelow_of_above isEntry' isEntry [e] below hmm' hmm habove hm' hbetween hstop hnew
    obtain ⟨-, h'⟩ :=
      insertBelow_of_above (fun _ => false) (fun _ => false) [e] below hmm' hmm habove hm'
      hbetween rfl hnew
    obtain ⟨hrun, hrun'⟩ := runBelow_of_above isEntry below hmm' hmm habove hm' hbetween hstop
    rw [h, h', hrun, hrun', extendRun_eq_extendRun_iff, and_comm]

end ApiScaffold.Text
