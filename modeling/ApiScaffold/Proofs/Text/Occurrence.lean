import ApiScaffold.Text.Search
import Mathlib.Data.List.Infix

/-! Where one text occurs in another: what `cut` finds is the first occurrence, and some characters
at a seam keep an occurrence on one side of it. -/
namespace ApiScaffold.Text

theorem cut_append_self (pattern after : List Char) :
    cut pattern (pattern ++ after) = some ([], after) := by
  cases pattern with
  | nil => cases after <;> simp [cut]
  | cons c pattern =>
    have hp : (c :: pattern).isPrefixOf (c :: pattern ++ after) = true :=
      List.isPrefixOf_iff_prefix.2 (List.prefix_append _ _)
    rw [List.cons_append] at hp ⊢
    rw [cut, if_pos hp]
    simp

/-- A text can be cut where the pattern occurs, and nowhere else. -/
theorem cut_eq_none_iff {pattern s : List Char} : cut pattern s = none ↔ ¬ pattern <:+: s := by
  induction s with
  | nil => cases pattern <;> simp [cut]
  | cons c rest ih =>
    rw [cut, List.infix_cons_iff, ← List.isPrefixOf_iff_prefix]
    split
    · rename_i hp
      simp [hp]
    · rename_i hp
      simp [hp, ih]

theorem occurs_iff {pattern s : List Char} : occurs pattern s = true ↔ pattern <:+: s := by
  rw [occurs, ← Option.ne_none_iff_isSome, ne_eq, cut_eq_none_iff, not_not]

theorem occurs_eq_false_iff {pattern s : List Char} :
    occurs pattern s = false ↔ ¬ pattern <:+: s := by
  rw [← occurs_iff, Bool.not_eq_true]

/-- What `cut` finds is the first occurrence: no other starts before it. -/
theorem length_le_of_cut {pattern s before after u v : List Char}
    (h : cut pattern s = some (before, after))
    (hs : s = u ++ pattern ++ v) : before.length ≤ u.length := by
  induction u generalizing s before with
  | nil =>
    rw [hs, List.nil_append, cut_append_self] at h
    obtain ⟨rfl, -⟩ := Prod.mk.inj (Option.some.inj h)
    simp
  | cons c u ih =>
    rw [hs, List.cons_append, List.cons_append, cut] at h
    split at h
    · obtain ⟨rfl, -⟩ := Prod.mk.inj (Option.some.inj h)
      simp
    · obtain ⟨⟨b, a⟩, hb, he⟩ := Option.map_eq_some_iff.1 h
      obtain ⟨rfl, rfl⟩ := Prod.mk.inj he
      simpa using ih hb rfl

theorem not_infix_of_cut {pattern s before after : List Char}
    (h : cut pattern s = some (before, after)) (hp : pattern ≠ []) : ¬ pattern <:+: before := by
  rintro ⟨u, v, rfl⟩
  have hs := eq_append_of_cut h
  have hle := length_le_of_cut h (u := u) (v := v ++ pattern ++ after) (by simp [hs])
  have := List.length_pos_iff.2 hp
  simp only [List.length_append] at hle
  omega

theorem cut_eq_some {pattern s before after : List Char} (hs : s = before ++ pattern ++ after)
    (hfirst : ∀ u v, s = u ++ pattern ++ v → before.length ≤ u.length) :
    cut pattern s = some (before, after) := by
  cases h : cut pattern s with
  | none =>
    have hi : pattern <:+: s := ⟨before, after, hs.symm⟩
    exact absurd hi (cut_eq_none_iff.1 h)
  | some p =>
    obtain ⟨b, a⟩ := p
    have he := eq_append_of_cut h
    have hle := length_le_of_cut h hs
    have hge := hfirst b a he
    rw [hs, List.append_assoc, List.append_assoc] at he
    obtain ⟨rfl, ht⟩ := List.append_inj he (by omega)
    rw [(List.append_cancel_left ht)]

/-- What is added behind a text has no part in where the first occurrence is. -/
theorem cut_append {pattern s before after : List Char} (h : cut pattern s = some (before, after))
    (t : List Char) : cut pattern (s ++ t) = some (before, after ++ t) := by
  have hs := eq_append_of_cut h
  refine cut_eq_some (by rw [hs, List.append_assoc]) fun u v he => ?_
  by_cases hu : u.length + pattern.length ≤ s.length
  · have hlen : (u ++ pattern).length ≤ s.length := by simpa using hu
    have hpre : u ++ pattern <+: s :=
      List.prefix_of_prefix_length_le ⟨v, he.symm⟩ (List.prefix_append s t) hlen
    obtain ⟨w, hw⟩ := hpre
    exact length_le_of_cut h hw.symm
  · have := congrArg List.length hs
    simp only [List.length_append] at this
    omega

/-- Nothing reaches over a character that it does not have. -/
theorem infix_append_cons_iff {p x y : List Char} {c : Char} (hc : c ∉ p) :
    p <:+: x ++ c :: y ↔ p <:+: x ∨ p <:+: y := by
  constructor
  · intro h
    rcases List.infix_append_iff_ne_nil.1 h with h | h | ⟨p₁, p₂, -, hp₂, rfl, -, hy⟩
    · exact .inl h
    · rcases List.infix_cons_iff.1 h with h | h
      · cases p with
        | nil => exact .inr (List.nil_infix)
        | cons d p =>
          obtain ⟨rfl, -⟩ := List.cons_prefix_cons.1 h
          simp at hc
      · exact .inr h
    · cases p₂ with
      | nil => exact absurd rfl hp₂
      | cons d p₂ =>
        obtain ⟨rfl, -⟩ := List.cons_prefix_cons.1 hy
        simp at hc
  · rintro (h | h)
    · exact h.trans (List.prefix_append _ _).isInfix
    · exact h.trans ((List.suffix_cons c y).trans (List.suffix_append _ _)).isInfix

/-- Nothing starts in a text that does not have its first character. -/
theorem infix_of_infix_append {p x y : List Char} {c : Char} (hp : p.head? = some c) (hc : c ∉ x)
    (h : p <:+: x ++ y) : p <:+: y := by
  cases p with
  | nil => simp at hp
  | cons d p =>
    obtain rfl : d = c := by simpa using hp
    rcases List.infix_append_iff_ne_nil.1 h with h | h | ⟨p₁, p₂, hp₁, -, he, hx, -⟩
    · exact absurd (h.mem (by simp)) hc
    · exact h
    · cases p₁ with
      | nil => exact absurd rfl hp₁
      | cons e p₁ =>
        obtain ⟨rfl, -⟩ := List.cons.inj he
        exact absurd (hx.mem (by simp)) hc

/-- Nothing ends in a text that does not have its last character. -/
theorem infix_of_append_infix {p x y : List Char} {c : Char} (hp : p.getLast? = some c) (hc : c ∉ y)
    (h : p <:+: x ++ y) : p <:+: x := by
  have hr : p.reverse <:+: y.reverse ++ x.reverse := by
    rw [← List.reverse_append, List.reverse_infix]
    exact h
  have :=
    infix_of_infix_append (c := c) (by rwa [List.head?_reverse]) (by rwa [List.mem_reverse]) hr
  rwa [List.reverse_infix] at this

/-- What starts a text and does not have a character ends in front of it. -/
theorem prefix_of_prefix_append_cons {p x y : List Char} {c : Char} (hc : c ∉ p)
    (h : p <+: x ++ c :: y) : p <+: x := by
  rcases List.prefix_or_prefix_of_prefix h (List.prefix_append x _) with hp | ⟨t, rfl⟩
  · exact hp
  · rw [List.prefix_append_right_inj] at h
    cases t with
    | nil => simp
    | cons d t =>
      obtain ⟨rfl, -⟩ := List.cons_prefix_cons.1 h
      simp at hc

/-- Where no occurrence starts, a text can be passed over. -/
theorem cut_append_of_forall {pattern x t : List Char}
    (h : ∀ u v, x = u ++ v → v ≠ [] → ¬ pattern <+: v ++ t) :
    cut pattern (x ++ t) = (cut pattern t).map fun (before, after) => (x ++ before, after) := by
  induction x with
  | nil => simp
  | cons c x ih =>
    have hhere : ¬ pattern.isPrefixOf (c :: (x ++ t)) = true := by
      rw [List.isPrefixOf_iff_prefix]
      exact h [] (c :: x) rfl (by simp)
    rw [List.cons_append, cut, if_neg hhere,
      ih fun u v hx hv => h (c :: u) v (by rw [hx, List.cons_append]) hv]
    simp [Function.comp_def]

/-- Up to a character that the pattern does not have, a text without the pattern can be passed
over. -/
theorem cut_append_cons {pattern x : List Char}
    {c : Char} (hc : c ∉ pattern) (hx : ¬ pattern <:+: x) (t : List Char) :
    cut pattern (x ++ c :: t) = (cut pattern t).map fun (before, after) =>
      (x ++ c :: before, after) := by
  have hpass : ∀ u v, x ++ [c] = u ++ v → v ≠ [] → ¬ pattern <+: v ++ t := by
    intro u v huv hv hp
    obtain ⟨w, rfl⟩ : ∃ w, v = w ++ [c] := by
      have hlast := congrArg List.getLast? huv
      rw [List.getLast?_append_of_ne_nil _ hv, List.getLast?_concat] at hlast
      exact ⟨v.dropLast, (List.dropLast_append_getLast? c hlast.symm).symm⟩
    rw [← List.append_assoc] at huv
    obtain ⟨rfl, -⟩ := List.append_inj' huv rfl
    rw [List.append_assoc, List.singleton_append] at hp
    have hw := prefix_of_prefix_append_cons hc hp
    exact hx (hw.isInfix.trans (List.suffix_append u w).isInfix)
  have hcons : x ++ c :: t = x ++ [c] ++ t := by simp
  rw [hcons, cut_append_of_forall hpass]
  simp

/-- A text without the pattern can be passed over with characters behind it that the pattern
does not have. -/
theorem cut_append_append {pattern x between : List Char}
    (hne : between ≠ []) (hb : ∀ c ∈ between, c ∉ pattern)
    (hx : ¬ pattern <:+: x) (t : List Char) : cut pattern (x ++ (between ++ t)) =
      (cut pattern t).map fun (before, after) => (x ++ (between ++ before), after) := by
  induction between generalizing x with
  | nil => exact absurd rfl hne
  | cons c between ih =>
    rw [List.cons_append, cut_append_cons (hb c List.mem_cons_self) hx]
    cases between with
    | nil => rfl
    | cons d between =>
      have hnil : ¬ pattern <:+: [] := fun h => hx (h.trans List.nil_infix)
      have hrest :=
        ih (List.cons_ne_nil d between) (fun e he => hb e (List.mem_cons_of_mem c he)) hnil
      rw [List.nil_append] at hrest
      rw [hrest]
      simp [Function.comp_def]

/-- Rows without the pattern are passed over with what stands behind each. -/
theorem cut_flatMap {pattern between : List Char} {rows : List (List Char)} (hne : between ≠ [])
    (hb : ∀ c ∈ between, c ∉ pattern) (hrows : ∀ row ∈ rows, ¬ pattern <:+: row) (t : List Char) :
    cut pattern (rows.flatMap (· ++ between) ++ t) = (cut pattern t).map fun (before, after) =>
      (rows.flatMap (· ++ between) ++ before, after) := by
  induction rows with
  | nil => simp
  | cons row rows ih =>
    rw [List.flatMap_cons, List.append_assoc, List.append_assoc,
      cut_append_append hne hb (hrows row List.mem_cons_self),
      ih fun r hr => hrows r (List.mem_cons_of_mem row hr)]
    simp [Function.comp_def]

end ApiScaffold.Text
