import ApiScaffold.Proofs.Registration.Filled
import ApiScaffold.Proofs.Text.Occurrence

/-! Braces in and from fields. Marks may themselves be a template, but one whose braces come in
pairs, so what they come out as would have braces of both kinds and be refused. A field brings in no
opening brace, and none of its marks can be the field of a name that is not made of marks. -/
namespace ApiScaffold.EntryTemplate
variable {name t e body s v : List Char} {depth : Nat} {f : Field} {c : Char}

/-- A field with a text has no braces in front of its marks, and its marks are ones that can be
used. -/
theorem of_fieldText (hname : '{' ∉ name) (h : fieldText name depth f = .ok v) : Unbraced f.front ∧
    ∃ marks, fieldMarks name depth f = .ok marks ∧ (∀ c ∈ marks.tail, EntryLayout.IsMark c) ∧
      ('{' ∈ v → '{' ∈ marks) := by
  unfold fieldText at h
  obtain ⟨r, hr, h⟩ := except_bind_eq_ok_iff.1 h
  obtain ⟨r', hr', h⟩ := except_bind_eq_ok_iff.1 h
  obtain ⟨marks, hmarks, h⟩ := except_bind_eq_ok_iff.1 h
  obtain ⟨hbraceless, hpath⟩ := of_valueAt hname hr
  obtain ⟨hbraceless', hletter⟩ := of_convert hbraceless hr'
  refine ⟨hpath.append ?_, marks, hmarks, of_layOut hbraceless' h⟩
  cases hconversion : f.conversion with
  | none => decide
  | some letter => exact .cons (by decide) (.cons (hletter letter hconversion) (by decide))

theorem Field.Spells.unbraced (h : f.Spells body) (hfront : Unbraced f.front)
    (hmarks : '{' ∉ f.marks) : Unbraced body := by
  have hclosing : '}' ∉ f.marks := by
    rw [← List.count_eq_zero, ← h.balanced, List.count_eq_zero]
    exact hmarks
  rcases h.spelt with ⟨-, rfl⟩ | rfl
  · exact hfront
  · exact hfront.append (.cons (by decide) ⟨hmarks, hclosing⟩)

/-- Marks of marks have no braces, and no braces come out of their fields. -/
theorem of_fieldText_zero (hname : '{' ∉ name) (hf : f.Spells body)
    (h : fieldText name 0 f = .ok v) : Unbraced body ∧ '{' ∉ v := by
  obtain ⟨hfront, marks, hmarks, -, hv⟩ := of_fieldText hname h
  have hopen : '{' ∉ f.marks := by
    intro hopen
    rw [fieldMarks, if_pos hopen] at hmarks
    cases hmarks
  rw [fieldMarks, if_neg hopen] at hmarks
  obtain rfl := Except.ok.inj hmarks
  exact ⟨hf.unbraced hfront hopen, fun hbrace => hopen (hv hbrace)⟩

/-- Each opening brace that marks come out with was doubled, so without closing ones among them
there were two more. -/
theorem count_marks (hname : '{' ∉ name) (h : Filled name 0 t e) (he : '}' ∉ e) :
    t.count '{' = t.count '}' + 2 * e.count '{' := by
  induction h with
  | nil => rfl
  | char hc _ ih =>
    have hrest := ih fun h => he (List.mem_cons_of_mem _ h)
    simpa [List.count_cons, hc.1, hc.2] using hrest
  | doubled hc _ ih =>
    have hrest := ih fun h => he (List.mem_cons_of_mem _ h)
    rcases hc with rfl | rfl
    · simp
      omega
    · exact absurd List.mem_cons_self he
  | @field f body v t e hf _ hv _ ih =>
    have hrest := ih fun h => he (List.mem_append_right v h)
    obtain ⟨⟨hopen, hclose⟩, hbrace⟩ := of_fieldText_zero hname hf hv
    simp [List.count_eq_zero.2 hopen, List.count_eq_zero.2 hclose, List.count_eq_zero.2 hbrace]
    omega

/-- Braces that have a meaning come in pairs, so marks that come out with an opening brace also have
a closing one. -/
theorem closing_mem_marks (hname : '{' ∉ name) (h : Filled name 0 t e)
    (hpairs : t.count '{' = t.count '}') (hopen : '{' ∈ e) : '}' ∈ e := by
  by_contra hclose
  have hcount := count_marks hname h hclose
  have hpos := List.count_pos_iff.2 hopen
  omega

theorem not_mem_marks (hname : '{' ∉ name) {marks : List Char}
    (hf : f.marks.count '{' = f.marks.count '}')
    (h : fieldMarks name 1 f = .ok marks) (hmarks : ∀ c ∈ marks.tail, EntryLayout.IsMark c) :
    '{' ∉ marks := by
  unfold fieldMarks at h
  split_ifs at h with hopen
  · intro hbrace
    have hclose := closing_mem_marks hname (filled_of_fill h) hf hbrace
    cases marks with
    | nil => cases hbrace
    | cons c marks =>
      rcases List.mem_cons.1 hbrace with rfl | hbrace
      · have hclose := (List.mem_cons.1 hclose).resolve_left (by decide)
        exact EntryLayout.not_isMark_brace.2 (hmarks _ hclose)
      · exact EntryLayout.not_isMark_brace.1 (hmarks _ hbrace)
  · rwa [← Except.ok.inj h]

theorem not_mem_fieldText (hname : '{' ∉ name) (hf : f.marks.count '{' = f.marks.count '}')
    (h : fieldText name 1 f = .ok v) : '{' ∉ v := by
  obtain ⟨-, marks, hmarks, hmeaning, hv⟩ := of_fieldText hname h
  exact fun hbrace => not_mem_marks hname hf hmarks hmeaning (hv hbrace)

/-- The braces around a word show which one it is. -/
theorem eq_of_closes {w x y : List Char} (hw : c ∉ w) (hx : c ∉ x)
    (h : w ++ [c] <+: x ++ c :: y) : x = w := by
  induction w generalizing x with
  | nil =>
    cases x with
    | nil => rfl
    | cons d x =>
      obtain ⟨rfl, -⟩ := List.cons_prefix_cons.1 h
      exact absurd List.mem_cons_self hx
  | cons d w ih =>
    rw [List.mem_cons, not_or] at hw
    cases x with
    | nil => exact absurd (List.cons_prefix_cons.1 h).1.symm hw.1
    | cons d' x =>
      obtain ⟨rfl, hrest⟩ := List.cons_prefix_cons.1 h
      rw [List.mem_cons, not_or] at hx
      rw [ih hw.2 hx.2 hrest]

theorem fieldText_name (hf : f.Spells "name".toList)
    (hv : fieldText name depth f = .ok v) : v = name := by
  have hspelt : f.conversion = none ∧ f.marks = [] ∧ f.path = "name".toList := by
    obtain ⟨path, conversion, marks⟩ := f
    rcases hf.spelt with ⟨hmarks, hfront⟩ | hfront
    · cases conversion with
      | none => exact ⟨rfl, hmarks, by simpa [Field.front] using hfront.symm⟩
      | some letter =>
        have hmem : '!' ∈ "name".toList := by simp [hfront, Field.front]
        exact absurd hmem (by decide)
    · have hmem : ':' ∈ "name".toList := by simp [hfront]
      exact absurd hmem (by decide)
  obtain ⟨hconversion, hmarks, hpath⟩ := hspelt
  rw [fieldText, hpath, valueAt_name, hconversion] at hv
  simpa [convert, fieldMarks, hmarks, layOut, EntryLayout.apply, Except.mapError] using hv.symm

/-- In front of a closing brace the field of the name is spelt only where that brace ends it. -/
theorem nameField_infix_unbraced {y : List Char} (hbody : Unbraced body)
    (h : nameField <:+: '{' :: (body ++ '}' :: y)) : body = "name".toList ∨ nameField <:+: y := by
  rcases List.infix_cons_iff.1 h with h | h
  · have hrest : "name".toList ++ ['}'] <+: body ++ '}' :: y := (List.cons_prefix_cons.1 h).2
    exact .inl (eq_of_closes (by decide) hbody.2 hrest)
  · have hopen : '{' ∉ body ++ ['}'] := by
      rw [List.mem_append, not_or]
      exact ⟨hbody.1, by decide⟩
    rw [List.append_cons] at h
    exact .inr (Text.infix_of_infix_append rfl hopen h)

/-- Marks that have the field of the name in them come out with the name or with an opening
brace. -/
theorem name_infix_or (hname : '{' ∉ name) (h : Filled name 0 t e)
    (hin : nameField <:+: t ++ ['}']) : name <:+: e ∨ '{' ∈ e := by
  induction h with
  | nil => exact absurd hin (by decide)
  | @char c t e hc _ ih =>
    have hin : nameField <:+: t ++ ['}'] :=
      Text.infix_of_infix_append (x := [c]) (c := '{') rfl (by simpa using hc.1.symm) hin
    exact (ih hin).imp (·.trans (List.suffix_cons c e).isInfix) (List.mem_cons_of_mem c)
  | @doubled c t e hc _ ih =>
    rcases hc with rfl | rfl
    · exact .inr List.mem_cons_self
    · have hin : nameField <:+: t ++ ['}'] :=
        Text.infix_of_infix_append (x := ['}', '}']) rfl (by decide) hin
      exact (ih hin).imp (·.trans (List.suffix_cons _ e).isInfix) (List.mem_cons_of_mem _)
  | @field f body v t e hf _ hv _ ih =>
    have hbody := (of_fieldText_zero hname hf hv).1
    rw [List.cons_append, List.append_assoc, List.cons_append] at hin
    rcases nameField_infix_unbraced hbody hin with rfl | hin
    · rw [fieldText_name hf hv]
      exact .inl (List.prefix_append name e).isInfix
    · exact (ih hin).imp (·.trans (List.suffix_append v e).isInfix) (List.mem_append_right v)

/-- A name that no marks can have in them. -/
def NoMark (name : List Char) : Prop :=
  ∃ c ∈ name.tail, ¬ EntryLayout.IsMark c

theorem NoMark.ne_nil (h : NoMark name) : name ≠ [] := by
  rintro rfl
  obtain ⟨c, hc, -⟩ := h
  cases hc

theorem mem_tail_of_within {x y : List Char} (h : x <:+: y) (hc : c ∈ x.tail) : c ∈ y.tail := by
  obtain ⟨u, w, rfl⟩ := h
  cases x with
  | nil => cases hc
  | cons d x =>
    cases u with
    | nil => exact List.mem_append_left w hc
    | cons d' u =>
      exact List.mem_append_left w (List.mem_append_right u (List.mem_cons_of_mem d hc))

/-- Such a name does not occur in a field among its marks. -/
theorem not_nameField_infix_marks (hname : '{' ∉ name) (hmark : NoMark name) {marks : List Char}
    (hf : f.marks.count '{' = f.marks.count '}') (h : fieldMarks name 1 f = .ok marks)
    (hmarks : ∀ c ∈ marks.tail, EntryLayout.IsMark c) : ¬ nameField <:+: f.marks ++ ['}'] := by
  intro hin
  have hbrace := not_mem_marks hname hf h hmarks
  unfold fieldMarks at h
  split_ifs at h with hopen
  · rcases name_infix_or hname (filled_of_fill h) hin with hin | hin
    · obtain ⟨c, hc, hno⟩ := hmark
      exact hno (hmarks c (mem_tail_of_within hin hc))
    · exact hbrace hin
  · have hmem : '{' ∈ f.marks ++ ['}'] := hin.mem (by decide)
    rw [List.mem_append] at hmem
    exact hmem.elim hopen (by decide)

/-- A field for such a name is the field of the name or nowhere looks like it. -/
theorem eq_name_or_not_infix (hname : '{' ∉ name) (hmark : NoMark name) (hf : f.Spells body)
    (hv : fieldText name 1 f = .ok v) :
    body = "name".toList ∨ ¬ nameField <:+: '{' :: (body ++ ['}']) := by
  obtain ⟨hfront, marks, hmarks, hmeaning, -⟩ := of_fieldText hname hv
  rw [or_iff_not_imp_right, not_not]
  intro hin
  rcases hf.spelt with ⟨-, rfl⟩ | rfl
  · exact (nameField_infix_unbraced hfront hin).resolve_right (by decide)
  · exfalso
    rw [List.append_assoc, List.cons_append] at hin
    rcases List.infix_cons_iff.1 hin with hin | hin
    · have hrest : "name".toList ++ ['}'] <+: f.front ++ ':' :: (f.marks ++ ['}']) :=
        (List.cons_prefix_cons.1 hin).2
      have hclose :=
        (Text.prefix_of_prefix_append_cons (by decide) hrest).mem (a := '}') (by decide)
      exact hfront.2 hclose
    · have hopen : '{' ∉ f.front ++ [':'] := by
        rw [List.mem_append, not_or]
        exact ⟨hfront.1, by decide⟩
      rw [List.append_cons] at hin
      exact not_nameField_infix_marks hname hmark hf.balanced hmarks hmeaning
        (Text.infix_of_infix_append rfl hopen hin)

end ApiScaffold.EntryTemplate
