import ApiScaffold.Proofs.Registration.FieldBraces

/-! The text in front of the first `{name}` of a template, and whether what the template is
filled in to starts with it. It does for every name where no braces in that text mean something.
Where some do, they come out as other text, and what follows stands too early in the entry to
make up for it. -/
namespace ApiScaffold.EntryTemplate
variable {name t e body s v lead : List Char} {depth : Nat} {c : Char}

/-- No field stands in a start but that of the name, and no brace in it is doubled. Behind the first
brace of a doubled one the name may look like a field, which ends the start there. -/
def Plain (lead : List Char) : Prop :=
  '}' ∉ lead ∧ '{' ∉ lead.dropLast

theorem beforeName_eq (t : List Char) : beforeName t = match Text.cut nameField t with
    | some (before, _) => before
    | none => t :=
  rfl

theorem beforeName_nil : beforeName [] = [] :=
  rfl

theorem beforeName_of_starts (h : nameField <+: t) : beforeName t = [] := by
  obtain ⟨t, rfl⟩ := h
  rw [beforeName_eq, Text.cut_append_self]

theorem beforeName_append (h : ∀ u v, s = u ++ v → v ≠ [] → ¬ nameField <+: v ++ t) :
    beforeName (s ++ t) = s ++ beforeName t := by
  rw [beforeName_eq, beforeName_eq, Text.cut_append_of_forall h]
  cases Text.cut nameField t <;> rfl

theorem beforeName_cons (h : ¬ nameField <+: c :: t) : beforeName (c :: t) = c :: beforeName t := by
  refine beforeName_append (s := [c]) fun u v huv hv => ?_
  obtain ⟨rfl, rfl⟩ : u = [] ∧ v = [c] := by
    rcases List.append_eq_singleton_iff.1 huv.symm with h | ⟨-, rfl⟩
    · exact h
    · exact absurd rfl hv
  exact h

theorem beforeName_char (hc : c ≠ '{') : beforeName (c :: t) = c :: beforeName t :=
  beforeName_cons fun h => hc (List.cons_prefix_cons.1 h).1.symm

theorem not_nameField_infix_beforeName (t : List Char) : ¬ nameField <:+: beforeName t := by
  rw [beforeName_eq]
  cases hcut : Text.cut nameField t with
  | none => exact Text.cut_eq_none_iff.1 hcut
  | some p => exact Text.not_infix_of_cut hcut (by decide)

/-- The start goes on behind a field that looks nowhere like that of the name. -/
theorem beforeName_field (h : ¬ nameField <:+: '{' :: (body ++ ['}'])) :
    beforeName ('{' :: (body ++ '}' :: t)) = '{' :: (body ++ ['}']) ++ beforeName t := by
  have hsplit : '{' :: (body ++ '}' :: t) = '{' :: (body ++ ['}']) ++ t := by simp
  rw [hsplit]
  refine beforeName_append fun u v huv hv hin => h ?_
  have hlast : v.getLast? = some '}' := by
    have hlast := congrArg List.getLast? huv
    rw [List.getLast?_append_of_ne_nil u hv, ← List.cons_append, List.getLast?_concat] at hlast
    exact hlast.symm
  have hv' : nameField <+: v := by
    rcases List.prefix_or_prefix_of_prefix hin (List.prefix_append v t) with hp | hp
    · exact hp
    · rcases List.prefix_concat_iff.1 (show v <+: "\x7bname".toList ++ ['}'] from hp) with rfl | hp
      · exact List.prefix_rfl
      · exact absurd (hp.mem (List.mem_of_getLast? hlast)) (by decide)
  rw [huv]
  exact hv'.isInfix.trans (List.suffix_append u v).isInfix

theorem nameField_eq : nameField = '{' :: ("name".toList ++ ['}']) := by
  decide

/-- Two braces in a row show no field, unless the second one and what is behind it look like the
field of the name. -/
theorem beforeName_opening (t : List Char) :
    "name".toList ++ ['}'] <+: t ∧ beforeName ('{' :: '{' :: t) = ['{'] ∨
      beforeName ('{' :: '{' :: t) = '{' :: '{' :: beforeName t := by
  have hfirst : ¬ nameField <+: '{' :: '{' :: t := by
    rw [nameField_eq, List.cons_prefix_cons]
    exact fun h => absurd (List.cons_prefix_cons.1 h.2).1 (by decide)
  rw [beforeName_cons hfirst]
  by_cases h : nameField <+: '{' :: t
  · refine .inl ⟨?_, by rw [beforeName_of_starts h]⟩
    rw [nameField_eq, List.cons_prefix_cons] at h
    exact h.2
  · exact .inr (by rw [beforeName_cons h])

theorem plain_cons (hc : c ≠ '{' ∧ c ≠ '}') : Plain (c :: lead) ↔ Plain lead := by
  cases lead with
  | nil => simp [Plain, hc.2.symm]
  | cons d lead => simp [Plain, hc.1.symm, hc.2.symm]

/-- A plain start comes out as it is written, whatever the name. -/
theorem prefix_of_filled_of_plain (h : Filled name depth t e) (hplain : Plain (beforeName t)) :
    beforeName t <+: e := by
  induction h with
  | nil => exact List.prefix_rfl
  | char hc _ ih =>
    rw [beforeName_char hc.1] at hplain ⊢
    exact List.cons_prefix_cons.2 ⟨rfl, ih ((plain_cons hc).1 hplain)⟩
  | @doubled c t e hc _ ih =>
    rcases hc with rfl | rfl
    · rcases beforeName_opening t with ⟨-, hbefore⟩ | hbefore
      · rw [hbefore]
        exact ⟨e, rfl⟩
      · rw [hbefore] at hplain
        exact absurd List.mem_cons_self hplain.2
    · rw [beforeName_char (by decide)] at hplain
      exact absurd List.mem_cons_self hplain.1
  | @field f body v t e _ hopen _ _ _ =>
    by_cases hp : nameField <+: '{' :: (body ++ '}' :: t)
    · rw [beforeName_of_starts hp]
      exact List.nil_prefix
    · obtain ⟨c, rest, hbody⟩ : ∃ c rest, body ++ '}' :: t = c :: rest :=
        List.exists_cons_of_ne_nil (by simp)
      have hc : c ≠ '{' := by
        rintro rfl
        cases body with
        | nil => cases hbody
        | cons d body =>
          obtain ⟨rfl, -⟩ := List.cons.inj hbody
          exact hopen rfl
      rw [beforeName_cons hp, hbody, beforeName_char hc] at hplain
      exact absurd List.mem_cons_self hplain.2

/-- Behind doubled braces a text comes out as it is up to the end of a field that they hide. -/
theorem prefix_of_filled (hs : Unbraced s) (h : Filled name depth (s ++ '}' :: t) e) :
    s ++ ['}'] <+: e := by
  induction s generalizing e with
  | nil =>
    cases h with
    | char hc _ => exact absurd rfl hc.2
    | doubled hc _ => exact ⟨_, rfl⟩
  | cons c s ih =>
    obtain ⟨hopen, hclose⟩ := hs
    rw [List.mem_cons, not_or] at hopen hclose
    generalize htext : c :: s ++ '}' :: t = text at h
    cases h with
    | nil => cases htext
    | char _ h =>
      obtain ⟨rfl, rfl⟩ := List.cons.inj htext
      exact List.cons_prefix_cons.2 ⟨rfl, ih ⟨hopen.2, hclose.2⟩ h⟩
    | doubled hc _ =>
      obtain ⟨rfl, -⟩ := List.cons.inj htext
      exact absurd hc (by simp [Ne.symm hopen.1, Ne.symm hclose.1])
    | field => exact absurd (List.cons.inj htext).1.symm hopen.1

/-- Neither the field of the name stands in a text nor the character that the name starts with. -/
structure Clear (name s : List Char) : Prop where
  unnamed : ¬ nameField <:+: s
  unlike : ∀ c ∈ name.head?, c ∉ s

theorem Clear.of_suffix (h : Clear name s) (ht : t <:+ s) : Clear name t where
  unnamed hin := h.unnamed (hin.trans ht.isInfix)
  unlike c hc hmem := h.unlike c hc (ht.mem hmem)

/-- What a template is filled in to does not begin with its start behind some text `u` that is still
to come out. If the start is not plain, there need not be such a text. -/
def Missing (name t e : List Char) : Prop :=
  ∀ u, (Plain (beforeName t) → u ≠ []) → Clear name (u ++ beforeName t) → ¬ u ++ beforeName t <+: e

/-- A part that came out shorter than it was written leaves a text behind which the rest is not
found. -/
theorem Missing.behind {x : List Char} (h : Missing name t e) (hlength : v.length < x.length)
    (hclear : Clear name (x ++ beforeName t)) : ¬ x ++ beforeName t <+: v ++ e := by
  intro hp
  obtain ⟨u, rfl⟩ := List.prefix_of_prefix_length_le (List.prefix_append v e)
    ((List.prefix_append x (beforeName t)).trans hp) hlength.le
  rw [List.append_assoc, List.prefix_append_right_inj] at hp
  refine h u (fun _ hu => ?_) (hclear.of_suffix ?_) hp
  · rw [hu, List.append_nil] at hlength
    exact hlength.false
  · rw [List.append_assoc]
    exact List.suffix_append v _

theorem missing_nil : Missing name [] [] := by
  intro u hu _
  rw [beforeName_nil] at hu ⊢
  simpa using hu ⟨by decide, by decide⟩

theorem Missing.char (hc : c ≠ '{' ∧ c ≠ '}') (h : Missing name t e) :
    Missing name (c :: t) (c :: e) := by
  intro u hu hclear hp
  rw [beforeName_char hc.1] at hu hclear hp
  cases u with
  | nil =>
    refine h [] (fun hplain => absurd rfl (hu ((plain_cons hc).2 hplain)))
      (hclear.of_suffix (List.suffix_cons c _)) ?_
    exact (List.cons_prefix_cons.1 hp).2
  | cons d u =>
    rw [List.append_cons] at hclear hp
    exact h.behind (v := [c]) (by simp) hclear hp

theorem Missing.doubled (hbefore : beforeName (c :: c :: t) = c :: c :: beforeName t)
    (h : Missing name t e) : Missing name (c :: c :: t) (c :: e) := by
  intro u _ hclear
  have hsplit : u ++ beforeName (c :: c :: t) = u ++ [c, c] ++ beforeName t := by simp [hbefore]
  rw [hsplit] at hclear ⊢
  exact h.behind (v := [c]) (by simp) hclear

/-- What looks like the field of the name behind the first of two braces ends the start there, but
comes out as it is written. -/
theorem missing_hidden (hhidden : "name".toList ++ ['}'] <+: t)
    (hbefore : beforeName ('{' :: '{' :: t) = ['{'])
    (h : Filled name depth t e) : Missing name ('{' :: '{' :: t) ('{' :: e) := by
  intro u hu hclear hp
  rw [hbefore] at hu hclear hp
  obtain ⟨t, rfl⟩ := hhidden
  rw [List.append_assoc, List.singleton_append] at h
  have hrest := prefix_of_filled (by decide) h
  cases u with
  | nil => exact hu ⟨by decide, by decide⟩ rfl
  | cons d u =>
    obtain ⟨rfl, hlater⟩ := List.cons_prefix_cons.1 hp
    refine hclear.unnamed ?_
    rw [nameField_eq]
    refine List.IsPrefix.isInfix (List.cons_prefix_cons.2 ⟨rfl, ?_⟩)
    rcases List.prefix_or_prefix_of_prefix hrest hlater with h | h
    · exact h
    · exact absurd (h.mem (a := '{') (by simp)) (by decide)

theorem missing_name (hname : name ≠ []) : Missing name (nameField ++ t) (name ++ e) := by
  intro u hu hclear hp
  rw [beforeName_of_starts (List.prefix_append nameField t)] at hu hclear hp
  cases u with
  | nil => exact hu ⟨by decide, by decide⟩ rfl
  | cons d u =>
    cases name with
    | nil => exact hname rfl
    | cons c rest =>
      obtain ⟨rfl, -⟩ := List.cons_prefix_cons.1 hp
      exact hclear.unlike d rfl List.mem_cons_self

/-- Any other field brings in no brace, so the one that opens it is not found in its text. -/
theorem Missing.field (hbody : ¬ nameField <:+: '{' :: (body ++ ['}'])) (hv : '{' ∉ v)
    (h : Missing name t e) : Missing name ('{' :: (body ++ '}' :: t)) (v ++ e) := by
  intro u _ hclear
  rw [beforeName_field hbody, ← List.append_assoc] at hclear ⊢
  by_cases hlength : v.length < (u ++ '{' :: (body ++ ['}'])).length
  · exact h.behind hlength hclear
  · intro hp
    have hstart :=
      List.prefix_of_prefix_length_le ((List.prefix_append _ _).trans hp) (List.prefix_append v e)
      (not_lt.1 hlength)
    exact hv (hstart.mem (by simp))

/-- What has once come out shorter than it was written never catches up. -/
theorem missing_of_filled (hname : '{' ∉ name) (hmark : NoMark name) (h : Filled name 1 t e) :
    Missing name t e := by
  induction h with
  | nil => exact missing_nil
  | char hc _ ih => exact ih.char hc
  | @doubled c t e hc hfilled ih =>
    rcases hc with rfl | rfl
    · rcases beforeName_opening t with ⟨hhidden, hbefore⟩ | hbefore
      · exact missing_hidden hhidden hbefore hfilled
      · exact ih.doubled hbefore
    · exact ih.doubled (by rw [beforeName_char (by decide), beforeName_char (by decide)])
  | @field f body v t e hf _ hv _ ih =>
    rcases eq_name_or_not_infix hname hmark hf hv with rfl | hbody
    · rw [fieldText_name hf hv]
      exact missing_name hmark.ne_nil
    · exact ih.field hbody (not_mem_fieldText hname hf.balanced hv)

end ApiScaffold.EntryTemplate
