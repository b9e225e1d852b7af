import ApiScaffold.Proofs.Text.Occurrence

/-! Replacing one text in another. Each occurrence gives way, from the left and none over another,
and all else stays. None is left in any text if and only if none can be formed where the new text
meets what stands around it. -/
namespace ApiScaffold.Text
variable {old new s t x y : List Char} {c : Char}

theorem replace_nil (old new : List Char) : replace old new [] = [] :=
  rfl

/-- Where no occurrence starts a text stays. -/
theorem replace_append_of_forall (h : ∀ u v, x = u ++ v → v ≠ [] → ¬ old <+: v ++ y)
    (new : List Char) :
    replace old new (x ++ y) = x ++ replace old new y := by
  induction x with
  | nil => rfl
  | cons d x ih =>
    have hhere : ¬ old.isPrefixOf (d :: (x ++ y)) = true := by
      rw [List.isPrefixOf_iff_prefix]
      exact h [] (d :: x) rfl (by simp)
    have hrest := ih fun u v hx hv => h (d :: u) v (by rw [hx, List.cons_append]) hv
    rw [replace] at hrest ⊢
    rw [List.cons_append, replaceAfter, if_neg hhere, hrest, List.cons_append]

theorem replace_append_of_not_mem (hold : old.head? = some c) (hc : c ∉ x) (new y : List Char) :
    replace old new (x ++ y) = x ++ replace old new y := by
  have hne : old ≠ [] := by
    rintro rfl
    cases hold
  refine replace_append_of_forall (fun u v hx hv => ?_) new
  rintro ⟨t, ht⟩
  have hhead : (old ++ t).head? = (v ++ y).head? := by rw [ht]
  rw [List.head?_append_of_ne_nil old hne, List.head?_append_of_ne_nil v hv, hold] at hhead
  exact hc (hx ▸ List.mem_append_right u (List.mem_of_head? hhead.symm))

theorem replace_self_append (hold : old ≠ []) (new y : List Char) :
    replace old new (old ++ y) = new ++ replace old new y := by
  have hskip (u : List Char) : replaceAfter old new u.length (u ++ y) = replace old new y := by
    induction u with
    | nil => rfl
    | cons d u ih => exact ih
  cases hold' : old with
  | nil => exact absurd hold' hold
  | cons d u =>
    have hhere : (d :: u).isPrefixOf (d :: (u ++ y)) = true :=
      List.isPrefixOf_iff_prefix.2 ⟨y, rfl⟩
    subst hold'
    rw [replace, List.cons_append, replaceAfter, if_pos hhere]
    exact congrArg (new ++ ·) (hskip u)

/-- No occurrence in a text starts before the one behind `before`. -/
def FirstBehind (old before after : List Char) : Prop :=
  ∀ u v, before ++ old ++ after = u ++ old ++ v → before.length ≤ u.length

theorem firstBehind_of_cut {before after : List Char} (h : cut old s = some (before, after)) :
    FirstBehind old before after :=
  fun _ _ he => length_le_of_cut h ((eq_append_of_cut h).trans he)

theorem FirstBehind.not_prefix {before after u v : List Char} (h : FirstBehind old before after)
    (hb : before = u ++ v) (hv : v ≠ []) : ¬ old <+: v ++ (old ++ after) := by
  rintro ⟨w, hw⟩
  have hle := h u w (by rw [hb, List.append_assoc, List.append_assoc, List.append_assoc, hw])
  have := List.length_pos_iff.2 hv
  rw [hb, List.length_append] at hle
  omega

/-- The first occurrence gives way, and the rest is treated in the same way. -/
theorem replace_first {before after : List Char}
    (hold : old ≠ []) (h : FirstBehind old before after) (new : List Char) :
    replace old new (before ++ old ++ after) = before ++ new ++ replace old new after := by
  rw [List.append_assoc, replace_append_of_forall (fun u v hb hv => h.not_prefix hb hv),
    replace_self_append hold, List.append_assoc]

/-- All occurrences of a text in another have given way, from the left and none over another: the
first one, and then those behind it. -/
inductive Replaced (old new : List Char) : List Char → List Char → Prop
  | none {s : List Char} (h : ¬ old <:+: s) : Replaced old new s s
  | first {before after t : List Char} (h : FirstBehind old before after) (hrest :
    Replaced old new after t) : Replaced old new (before ++ old ++ after) (before ++ new ++ t)

theorem replace_eq_self (new : List Char) (h : ¬ old <:+: s) : replace old new s = s := by
  have hs : ∀ u v, s = u ++ v → v ≠ [] → ¬ old <+: v ++ [] := by
    rintro u v rfl - hp
    rw [List.append_nil] at hp
    exact h (hp.isInfix.trans (List.suffix_append u v).isInfix)
  simpa [replace_nil] using replace_append_of_forall hs new

theorem replace_self (new : List Char) (hold : old ≠ []) : replace old new old = new := by
  simpa [replace_nil] using replace_self_append hold new []

theorem replaced_iff (hold : old ≠ []) : Replaced old new s t ↔ t = replace old new s := by
  constructor
  · intro h
    induction h with
    | none h => exact (replace_eq_self new h).symm
    | first h _ ih => rw [replace_first hold h, ← ih]
  · rintro rfl
    induction hn : s.length using Nat.strong_induction_on generalizing s with
    | _ n ih =>
      cases hcut : cut old s with
      | none =>
        have h := cut_eq_none_iff.1 hcut
        rw [replace_eq_self new h]
        exact .none h
      | some parts =>
        obtain ⟨before, after⟩ := parts
        have hs := eq_append_of_cut hcut
        have hfirst := firstBehind_of_cut hcut
        have hpos := List.length_pos_iff.2 hold
        have hlen := congrArg List.length hs
        simp only [List.length_append] at hlen
        rw [hs, replace_first hold hfirst]
        exact .first hfirst (ih after.length (by omega) rfl)

theorem prefix_getElem? {x y : List Char} (h : x <+: y) {i : ℕ} (hi : i < x.length) :
    y[i]? = x[i]? := by
  obtain ⟨r, rfl⟩ := h
  exact List.getElem?_append_left hi

/-- A text that starts with `u ++ b` and repeats itself after `b` repeats itself after `u` as
well. -/
theorem prefix_append_of_period {u b : List Char} (hne : b ≠ []) (hb : t <+: b ++ t)
    (hub : u ++ b <+: t) : t <+: u ++ t := by
  have hpos := List.length_pos_iff.2 hne
  have hlong := hub.length_le
  rw [List.length_append] at hlong
  have hstart : b <+: t := List.prefix_of_prefix_length_le (List.prefix_append b t) hb (by omega)
  have hperiod {i : ℕ} (h : b.length ≤ i) (hi : i < t.length) : t[i]? = t[i - b.length]? := by
    rw [← prefix_getElem? hb hi, List.getElem?_append_right h]
  have hrepeat (i : ℕ) (h : u.length ≤ i) (hi : i < t.length) : t[i]? = t[i - u.length]? := by
    induction i using Nat.strong_induction_on with
    | _ i ih =>
      by_cases hin : i < u.length + b.length
      · rw [prefix_getElem? hub (by rwa [List.length_append]), List.getElem?_append_right h,
          prefix_getElem? hstart (by omega)]
      · -- one `b` back the text is the same at both places
        calc t[i]? = t[i - b.length]? := hperiod (by omega) hi
          _ = t[i - b.length - u.length]? := ih _ (by omega) (by omega) (by omega)
          _ = t[i - u.length - b.length]? := by rw [Nat.sub_right_comm]
          _ = t[i - u.length]? := (hperiod (by omega) (by omega)).symm
  rw [List.prefix_iff_getElem?]
  intro i hi
  rw [← List.getElem?_eq_getElem hi]
  by_cases h : i < u.length
  · rw [List.getElem?_append_left h, prefix_getElem? ((List.prefix_append u b).trans hub) h]
  · rw [List.getElem?_append_right (by omega), hrepeat i (by omega) hi]

/-- Behind a beginning `x` of a text the text occurs first, unless its remainder begins it as
well. -/
theorem firstBehind_of_remainder {x r : List Char} (h : old = x ++ r) (hr : ¬ r <+: old)
    (after : List Char) : FirstBehind old x after := by
  intro u v he
  by_contra hlt
  -- an earlier occurrence would start within `x`, before an end `b` of it
  obtain ⟨b, rfl⟩ : u <+: x :=
    List.prefix_of_prefix_length_le ⟨old ++ v, by rw [← List.append_assoc, ← he]⟩
      ⟨old ++ after, by rw [List.append_assoc]⟩ (by omega)
  have hb : b ≠ [] := by
    rintro rfl
    simp at hlt
  have hperiod : old <+: b ++ old := by
    rw [List.append_assoc, List.append_assoc, List.append_assoc] at he
    have hprefix : old <+: b ++ old ++ after :=
      ⟨v, by rw [← List.append_cancel_left he, List.append_assoc]⟩
    exact List.prefix_of_prefix_length_le hprefix (List.prefix_append _ _) (by simp)
  have hu : old <+: u ++ old := prefix_append_of_period hb hperiod ⟨r, h.symm⟩
  have hub : u ++ b ++ r <+: u ++ b ++ old := by
    rw [← h, List.append_assoc]
    exact hu.trans ((List.prefix_append_right_inj u).2 hperiod)
  exact hr ((List.prefix_append_right_inj _).1 hub)

/-- A text that leaves nothing of another in whose place it is put. The other is not in it, no end
of it begins the other, and where an end of the other begins it, or goes on with it to begin with,
that end begins the other as well. -/
def Clean (old new : List Char) : Prop :=
  ¬ old <:+: new ∧ (∀ r, r <:+ new → r ≠ [] → ¬ r <+: old) ∧
    ∀ r, r <:+ old → r ≠ [] → r <+: new ∨ new <+: r → r <+: old

instance (old new : List Char) : Decidable (Clean old new) :=
  decidable_of_iff (¬ old <:+: new ∧ (∀ r ∈ new.tails, r ≠ [] → ¬ r <+: old) ∧ ∀ r ∈ old.tails,
    r ≠ [] → r <+: new ∨ new <+: r → r <+: old) (by simp only [List.mem_tails, Clean])

/-- After one replacement no occurrence reaches over from what stands in front, if none is in
what is behind. -/
theorem Clean.not_infix {before after : List Char} (hc : Clean old new) (hold : old ≠ [])
    (hfirst : FirstBehind old before after) (ht : ¬ old <:+: t) :
    ¬ old <:+: before ++ new ++ t := by
  obtain ⟨hin, hbehind, hbefore⟩ := hc
  rw [List.append_assoc, List.infix_append_iff_ne_nil, List.infix_append_iff_ne_nil]
  rintro (⟨u, v, he⟩ | (h | h | ⟨x, y, hx, hy, he, hxn, -⟩) | ⟨x, r, hx, hr, he, ⟨z, hz⟩, hrn⟩)
  · have hle := hfirst u (v ++ old ++ after) (by rw [← he]; simp)
    have hlen := congrArg List.length he
    have hpos := List.length_pos_iff.2 hold
    simp only [List.length_append] at hlen
    omega
  · exact hin h
  · exact ht h
  · exact hbehind x hxn hx ⟨y, he.symm⟩
  · -- the occurrence starts with an end `x` of what stands in front, so that one starts there in
    -- the text before
    have hborder : r <+: old :=
      hbefore r ⟨x, he.symm⟩ hr (List.prefix_or_prefix_of_prefix hrn (List.prefix_append _ _))
    obtain ⟨w, hw⟩ : old <+: x ++ old := by
      nth_rewrite 1 [he]
      exact (List.prefix_append_right_inj x).2 hborder
    refine hfirst.not_prefix hz.symm hx ⟨w ++ after, ?_⟩
    rw [← List.append_assoc, hw, List.append_assoc]

/-- Where the new text is clean nothing of the old is left. -/
theorem Clean.not_infix_replace (hc : Clean old new) (hold : old ≠ []) (s : List Char) :
    ¬ old <:+: replace old new s := by
  have hreplaced : Replaced old new s (replace old new s) := (replaced_iff hold).2 rfl
  generalize replace old new s = t at hreplaced
  induction hreplaced with
  | none h => exact h
  | first hfirst _ ih => exact hc.not_infix hold hfirst ih

/-- Less than a whole text does not have it in it. -/
theorem not_infix_of_length_lt (h : y.length < old.length) : ¬ old <:+: y := by
  intro hi
  have := hi.length_le
  omega

/-- Where the new text is not clean there is a text in which something of the old is left. -/
theorem exists_infix_replace (hold : old ≠ []) (hc : ¬ Clean old new) :
    ∃ s, old <:+: replace old new s := by
  unfold Clean at hc
  simp only [not_and_or, not_forall, not_not] at hc
  rcases hc with hin | ⟨x, hxn, hx, y, he⟩ | ⟨r, ⟨x, he⟩, hr, hmeet, hborder⟩
  · exact ⟨old, by rwa [replace_self new hold]⟩
  · -- an end `x` of the new text goes on with `y` behind it
    have hpos := List.length_pos_iff.2 hx
    have hy : ¬ old <:+: y := not_infix_of_length_lt (by rw [← he, List.length_append]; omega)
    refine ⟨old ++ y, ?_⟩
    rw [replace_self_append hold, replace_eq_self new hy]
    obtain ⟨z, rfl⟩ := hxn
    exact ⟨z, [], by rw [← he]; simp⟩
  · -- a beginning `x` of the old text goes on with the new one, or over it with `y`
    have hfirst (y : List Char) := firstBehind_of_remainder he.symm hborder y
    rcases hmeet with ⟨z, rfl⟩ | ⟨y, rfl⟩
    · refine ⟨x ++ old ++ [], ?_⟩
      rw [replace_first hold (hfirst []), ← List.append_assoc, he]
      exact ⟨[], z ++ replace old (r ++ z) [], by simp⟩
    · have hx : x ≠ [] := by
        rintro rfl
        exact hborder (by rw [← he]; simp)
      have hpos := List.length_pos_iff.2 hx
      have hlen := congrArg List.length he
      simp only [List.length_append] at hlen
      have hy : ¬ old <:+: y := not_infix_of_length_lt (by omega)
      refine ⟨x ++ old ++ y, ?_⟩
      rw [replace_first hold (hfirst y), replace_eq_self new hy, List.append_assoc, he]

end ApiScaffold.Text
