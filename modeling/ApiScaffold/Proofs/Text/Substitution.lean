import ApiScaffold.Proofs.Text.Replacement
import ApiScaffold.Proofs.Text.Segments

/-! Replacing several texts at once. Where the texts to be replaced stand apart, each between
characters that none of them has, replacing them one after the other comes to the same. -/
namespace ApiScaffold.Text
variable {pairs : List (List Char × List Char)} {old new old' new' s x y : List Char} {c : Char}

/-- The first of several texts that a text starts with, and what is put in for it. -/
def startOf (pairs : List (List Char × List Char)) (s : List Char) :
    Option (List Char × List Char) :=
  pairs.find? fun pair => pair.1.isPrefixOf s

/-- Replaces several texts after `skip` characters, which belong to an occurrence replaced
before. -/
def substituteAfter (pairs : List (List Char × List Char)) : Nat → List Char → List Char
  | _, [] => []
  | skip + 1, _ :: rest => substituteAfter pairs skip rest
  | 0, c :: rest =>
    match startOf pairs (c :: rest) with
    | some (old, new) => new ++ substituteAfter pairs (old.length - 1) rest
    | none => c :: substituteAfter pairs 0 rest

/-- Replaces several texts at once: the leftmost occurrence of any, of the first of them if several
occur there, then goes on behind it. What is put in is not looked at again. -/
def substitute (pairs : List (List Char × List Char)) (s : List Char) : List Char :=
  substituteAfter pairs 0 s

theorem replace_eq_substitute (old new s : List Char) :
    replace old new s = substitute [(old, new)] s := by
  have hafter (skip : Nat) : replaceAfter old new skip s = substituteAfter [(old, new)] skip s := by
    induction s generalizing skip with
    | nil => cases skip <;> rfl
    | cons c s ih =>
      cases skip with
      | zero =>
        rw [replaceAfter, substituteAfter, ih, ih, startOf, List.find?_singleton]
        split <;> rfl
      | succ skip => exact ih skip
  exact hafter 0

theorem substitute_eq_self (h : ∀ p ∈ pairs, ¬ p.1 <:+: s) : substitute pairs s = s := by
  unfold substitute
  induction s with
  | nil => rfl
  | cons c s ih =>
    have hnone : startOf pairs (c :: s) = none := by
      rw [startOf, List.find?_eq_none]
      intro p hp hprefix
      exact h p hp (List.isPrefixOf_iff_prefix.1 hprefix).isInfix
    rw [substituteAfter, hnone]
    simp only
    rw [ih fun p hp hs => h p hp (hs.trans (List.suffix_cons c s).isInfix)]

theorem substituteAfter_length (pairs : List (List Char × List Char)) (s : List Char) :
    substituteAfter pairs s.length s = [] := by
  induction s with
  | nil => rfl
  | cons c s ih => exact ih

theorem substitute_self (hold : old ≠ []) (h : startOf pairs old = some (old, new)) :
    substitute pairs old = new := by
  cases old with
  | nil => exact absurd rfl hold
  | cons c old =>
    rw [substitute, substituteAfter, h]
    simp only [List.length_cons, Nat.add_sub_cancel, substituteAfter_length, List.append_nil]

/-- What starts a text with a character in it that it does not have ends in front of that
character. -/
theorem isPrefixOf_append_cons {p : List Char} (hc : c ∉ p) (x y : List Char) :
    p.isPrefixOf (x ++ c :: y) = p.isPrefixOf x := by
  rw [Bool.eq_iff_iff, List.isPrefixOf_iff_prefix, List.isPrefixOf_iff_prefix]
  exact ⟨prefix_of_prefix_append_cons hc, fun h => h.trans (List.prefix_append _ _)⟩

theorem startOf_append_cons (h : ∀ p ∈ pairs, c ∉ p.1) (x y : List Char) :
    startOf pairs (x ++ c :: y) = startOf pairs x := by
  unfold startOf
  induction pairs with
  | nil => rfl
  | cons p pairs ih =>
    rw [List.find?_cons, List.find?_cons, isPrefixOf_append_cons (h p List.mem_cons_self),
      ih fun q hq => h q (List.mem_cons_of_mem p hq)]

/-- A character that is in none of the texts keeps apart what is replaced on its two sides. -/
theorem substitute_append_cons (h : ∀ p ∈ pairs, p.1 ≠ [] ∧ c ∉ p.1) (x y : List Char) :
    substitute pairs (x ++ c :: y) = substitute pairs x ++ c :: substitute pairs y := by
  have hstart := startOf_append_cons (fun p hp => (h p hp).2) (y := y)
  have hafter (skip : Nat) (hskip : skip ≤ x.length) : substituteAfter pairs skip (x ++ c :: y) =
      substituteAfter pairs skip x ++ c :: substitute pairs y := by
    induction x generalizing skip with
    | nil =>
      obtain rfl : skip = 0 := by simpa using hskip
      have hnone : startOf pairs [] = none := by
        rw [startOf, List.find?_eq_none]
        intro p hp hprefix
        exact (h p hp).1 (by simpa using hprefix)
      have hhere : startOf pairs (c :: y) = none := (hstart []).trans hnone
      change (match startOf pairs (c :: y) with
        | some (old, new) => new ++ substituteAfter pairs (old.length - 1) y
        | none => c :: substituteAfter pairs 0 y) = _
      rw [hhere]
      rfl
    | cons d x ih =>
      cases skip with
      | succ skip => exact ih skip (by simpa using hskip)
      | zero =>
        have hhere : startOf pairs (d :: (x ++ c :: y)) = startOf pairs (d :: x) := hstart (d :: x)
        rw [List.cons_append, substituteAfter, substituteAfter, hhere]
        cases hp : startOf pairs (d :: x) with
        | none =>
          simp only
          rw [ih 0 (Nat.zero_le _), List.cons_append]
        | some pair =>
          obtain ⟨old, new⟩ := pair
          have hprefix : old <+: d :: x :=
            List.isPrefixOf_iff_prefix.1 (by simpa using List.find?_some hp)
          have hlen := hprefix.length_le
          rw [List.length_cons] at hlen
          simp only
          rw [ih _ (by omega), List.append_assoc]
  exact hafter 0 (Nat.zero_le _)

/-- A text is one run of characters up to a separator, or goes on behind the first. -/
theorem exists_run (p : Char → Bool) (s : List Char) : (∀ d ∈ s, p d = false) ∨
    ∃ x c y, s = x ++ c :: y ∧ (∀ d ∈ x, p d = false) ∧ p c = true := by
  induction s with
  | nil => exact .inl (by simp)
  | cons d s ih =>
    cases hd : p d with
    | true => exact .inr ⟨[], d, s, rfl, by simp, hd⟩
    | false =>
      rcases ih with h | ⟨x, c, y, rfl, hx, hc⟩
      · exact .inl (by simpa [hd] using h)
      · exact .inr ⟨d :: x, c, y, rfl, by simpa [hd] using hx, hc⟩

/-- Two texts stand apart in a third: a run of characters between separators is one of them
or has neither. -/
def Apart (p : Char → Bool) (old old' s : List Char) : Prop :=
  ∀ run ∈ s.splitOnP p, run = old ∨ run = old' ∨ ¬ old <:+: run ∧ ¬ old' <:+: run

instance (p : Char → Bool) (old old' s : List Char) : Decidable (Apart p old old' s) :=
  inferInstanceAs (Decidable (∀ run ∈ s.splitOnP p, _))

/-- What a text has no occurrence of no run of its characters has. -/
theorem infix_of_mem_splitOnP {p : Char → Bool} {run : List Char} (h : run ∈ s.splitOnP p) :
    run <:+: s := by
  induction hn : s.length using Nat.strong_induction_on generalizing s with
  | _ n ih =>
    rcases exists_run p s with hall | ⟨x, c, y, rfl, hx, hc⟩
    · rw [List.splitOnP_eq_singleton hall, List.mem_singleton] at h
      rw [h]
    · rw [List.splitOnP_append_cons_of_forall_mem hx c hc, List.mem_cons] at h
      rcases h with rfl | h
      · exact (List.prefix_append _ _).isInfix
      · have hy := ih y.length (by simp at hn; omega) h rfl
        exact hy.trans ((List.suffix_cons c y).trans (List.suffix_append _ _)).isInfix

theorem apart_of_not_infix {p : Char → Bool} (h : ¬ old <:+: s) (h' : ¬ old' <:+: s) :
    Apart p old old' s :=
  fun _ hm => .inr (.inr ⟨fun hi => h (hi.trans (infix_of_mem_splitOnP hm)),
    fun hi => h' (hi.trans (infix_of_mem_splitOnP hm))⟩)

/-- Texts stand apart in lines if they do in each. -/
theorem apart_ended {p : Char → Bool} (hold : old ≠ []) (hold' : old' ≠ []) (hp : p '\n' = true)
    {lines : List (List Char)} (h : ∀ line ∈ lines, Apart p old old' line) :
    Apart p old old' (ended lines) := by
  induction lines with
  | nil => exact apart_of_not_infix (by simpa using hold) (by simpa using hold')
  | cons line lines ih =>
    intro run hm
    rw [ended_cons, List.splitOnP_append_cons line (ended lines) hp, List.mem_append] at hm
    rcases hm with hm | hm
    · exact h line List.mem_cons_self run hm
    · exact ih (fun l hl => h l (List.mem_cons_of_mem line hl)) run hm

/-- Two texts that stand apart can be replaced one after the other as well as at once, if the second
is not in what is put in for the first. -/
theorem replace_replace {p : Char → Bool} (hold : old ≠ [])
    (hold' : old' ≠ []) (hne : ¬ old <:+: old')
    (hp : ∀ c ∈ old ++ old', p c = false) (hnew : ¬ old' <:+: new) (h : Apart p old old' s) :
    replace old' new' (replace old new s) = substitute [(old, new), (old', new')] s := by
  have hrun (x : List Char) (hx : x = old ∨ x = old' ∨ ¬ old <:+: x ∧ ¬ old' <:+: x) :
      replace old' new' (replace old new x) = substitute [(old, new), (old', new')] x := by
    rcases hx with rfl | rfl | ⟨hx, hx'⟩
    · rw [replace_self new hold, replace_eq_self new' hnew]
      exact (substitute_self hold (by simp [startOf])).symm
    · rw [replace_eq_self new hne, replace_self new' hold']
      have hprefix : old.isPrefixOf x = false := by
        rw [← Bool.not_eq_true, List.isPrefixOf_iff_prefix]
        exact fun hpre => hne hpre.isInfix
      exact (substitute_self hold' (by simp [startOf, hprefix])).symm
    · rw [replace_eq_self new hx, replace_eq_self new' hx']
      exact (substitute_eq_self (by simpa using ⟨hx, hx'⟩)).symm
  induction hn : s.length using Nat.strong_induction_on generalizing s with
  | _ n ih =>
    rcases exists_run p s with hall | ⟨x, c, y, rfl, hx, hc⟩
    · refine hrun s (h s ?_)
      rw [List.splitOnP_eq_singleton hall]
      exact List.mem_cons_self
    · have hmem : c ∉ old ∧ c ∉ old' := by
        rw [← not_or, ← List.mem_append]
        intro hm
        rw [hp c hm] at hc
        cases hc
      unfold Apart at h
      rw [List.splitOnP_append_cons_of_forall_mem hx c hc, List.forall_mem_cons] at h
      rw [replace_eq_substitute old new, substitute_append_cons (by simpa using ⟨hold, hmem.1⟩),
        ← replace_eq_substitute, ← replace_eq_substitute, replace_eq_substitute old' new',
        substitute_append_cons
          (by simpa using ⟨hold', hmem.2⟩), ← replace_eq_substitute, ← replace_eq_substitute,
        substitute_append_cons (by simpa using ⟨⟨hold, hmem.1⟩, hold', hmem.2⟩), hrun x h.1,
        ih y.length (by simp at hn; omega) h.2 rfl]

end ApiScaffold.Text
