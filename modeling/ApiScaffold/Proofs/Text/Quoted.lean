import ApiScaffold.Text.Padding
import ApiScaffold.Text.Quoted
import Mathlib.Tactic.SplitIfs

/-! Quotes and paddings bring no opening brace into a text, apart from a padding that is filled
up with braces. -/
namespace ApiScaffold.Text

theorem mem_hexDigits {width n : Nat} {c : Char} (h : c ∈ hexDigits width n) :
    ∃ d < 16, c = Nat.digitChar d := by
  induction width generalizing n with
  | zero => cases h
  | succ width ih =>
    rcases List.mem_append.1 h with h | h
    · exact ih h
    · exact ⟨n % 16, Nat.mod_lt n (by decide), List.mem_singleton.1 h⟩

theorem digitChar_ne_brace : ∀ n < 16, Nat.digitChar n ≠ '{' := by
  decide

theorem not_mem_escapeNumber (c : Char) : '{' ∉ escapeNumber c := by
  have hdigits : ∀ width n, '{' ∉ hexDigits width n := by
    intro width n h
    obtain ⟨d, hd, he⟩ := mem_hexDigits h
    exact digitChar_ne_brace d hd he.symm
  unfold escapeNumber
  split_ifs <;> simp [hdigits]

theorem eq_of_mem_escape {quote c : Char} (h : '{' ∈ escape quote c) : c = '{' := by
  unfold escape at h
  split_ifs at h
  · simpa [eq_comm] using h
  · simp at h
  · simp at h
  · simp at h
  · simpa [eq_comm] using h
  · exact absurd h (not_mem_escapeNumber c)

theorem quoteFor_ne (s : List Char) : quoteFor s ≠ '{' := by
  unfold quoteFor
  split_ifs <;> decide

theorem not_mem_quote {s : List Char} (h : '{' ∉ s) : '{' ∉ quote s := by
  have hq := quoteFor_ne s
  simp only [quote, List.cons_append, List.mem_cons, List.mem_append, List.mem_flatMap,
    List.not_mem_nil, or_false]
  rintro (he | ⟨c, hc, he⟩ | he)
  · exact hq he.symm
  · exact h (eq_of_mem_escape he ▸ hc)
  · exact hq he.symm

theorem not_mem_quoteAscii {s : List Char} (h : '{' ∉ s) : '{' ∉ quoteAscii s := by
  unfold quoteAscii
  intro hm
  obtain ⟨c, hc, he⟩ := List.mem_flatMap.1 hm
  split at he
  · exact not_mem_quote h (List.mem_singleton.1 he ▸ hc)
  · exact not_mem_escapeNumber c he

theorem Padding.mem_apply {p : Padding} {s : List Char} {c : Char} (h : c ∈ p.apply s) :
    c ∈ s ∨ c = p.fill := by
  have hlimit : ∀ c ∈ p.limit.elim s s.take, c ∈ s := by
    intro c hc
    cases hl : p.limit with
    | none => rwa [hl] at hc
    | some n =>
      rw [hl] at hc
      exact List.mem_of_mem_take hc
  simp only [Padding.apply, List.mem_append] at h
  rcases h with (h | h) | h
  · exact .inr (List.eq_of_mem_replicate h)
  · exact .inl (hlimit c h)
  · exact .inr (List.eq_of_mem_replicate h)

end ApiScaffold.Text
