import ApiScaffold.Proofs.FileTree.Walk
import Mathlib.Data.List.Nodup

/-! Listings of a file tree: what they give is what stands in or below a place, each entry once and
names in order. -/
namespace ApiScaffold.FileTree
variable {t : FileTree} {l : Location}

theorem mem_entries {k : Location} {n : Node} :
    (k, n) ∈ t.entries.toList ↔ k ≠ [] ∧ t.get? k = some n := by
  rw [Std.ExtTreeMap.mem_toList_iff_getElem?_eq_some, get?]
  by_cases hk : k = []
  · subst hk
    have hnone : ¬ ([] : Location) ∈ t.entries := fun hm => (t.parent_isDirectory [] hm).1 rfl
    simp [Std.ExtTreeMap.getElem?_eq_none hnone]
  · simp [hk]

theorem mem_below {r : List String} {n : Node} :
    (r, n) ∈ t.below l ↔ r ≠ [] ∧ t.get? (l ++ r) = some n := by
  simp only [below, List.mem_filterMap, Prod.exists]
  constructor
  · rintro ⟨k, m, hm, he⟩
    split at he
    · rename_i h
      obtain ⟨r', rfl⟩ := List.isPrefixOf_iff_prefix.1 h.1
      obtain ⟨rfl, rfl⟩ := Prod.mk.inj (Option.some.inj he)
      rw [List.drop_left]
      exact ⟨fun hr => h.2 (by simp [hr]), (mem_entries.1 hm).2⟩
    · cases he
  · rintro ⟨hr, hg⟩
    refine ⟨l ++ r, n, mem_entries.2 ⟨by simp [hr], hg⟩, ?_⟩
    rw [if_pos ⟨List.isPrefixOf_iff_prefix.2 (List.prefix_append l r), by simpa using hr⟩,
      List.drop_left]

theorem entries_pairwise (t : FileTree) :
    t.entries.toList.Pairwise fun a b => compare a.1 b.1 = .lt :=
  Std.ExtTreeMap.ordered_keys_toList

theorem compare_eq_lt_iff (a b : Location) : compare a b = .lt ↔ a < b := by
  induction a generalizing b with
  | nil =>
    cases b with
    | nil => simp
    | cons y b => exact iff_of_true rfl (List.nil_lt_cons y b)
  | cons x a ih =>
    cases b with
    | nil => exact iff_of_false nofun (List.not_lt_nil _)
    | cons y b =>
      have hlt : compare x y = .lt ↔ x < y := compareOfLessAndEq_eq_lt
      have heq : compare x y = .eq ↔ x = y := Std.compare_eq_iff_eq
      change List.compareLex compare (x :: a) (y :: b) = _ ↔ _
      rw [List.compareLex_cons_cons, Ordering.then_eq_lt, hlt, heq, List.cons_lt_cons_iff]
      exact or_congr_right (and_congr_right fun _ => ih b)

/-- Of two places below a third the ways from there decide. -/
theorem append_lt_append_iff (l a b : Location) : l ++ a < l ++ b ↔ a < b := by
  induction l with
  | nil => rfl
  | cons x l ih => simp [ih]

theorem nodup_of_pairwise_lt {ways : List Location} (h : ways.Pairwise (· < ·)) : ways.Nodup := by
  rw [List.nodup_iff_pairwise_ne]
  refine h.imp fun hlt he => ?_
  rw [he] at hlt
  exact List.lt_irrefl _ hlt

theorem below_pairwise (t : FileTree) (l : Location) :
    ((t.below l).map (·.1)).Pairwise (· < ·) := by
  rw [below, List.pairwise_map]
  refine t.entries_pairwise.filterMap _ ?_
  rintro ⟨k, n⟩ ⟨k', n'⟩ hlt ⟨r, m⟩ hr ⟨r', m'⟩ hr'
  simp only [Option.ite_none_right_eq_some, Option.some.injEq, Prod.mk.injEq,
    List.isPrefixOf_iff_prefix] at hr hr'
  obtain ⟨⟨⟨s, rfl⟩, -⟩, rfl, -⟩ := hr
  obtain ⟨⟨⟨s', rfl⟩, -⟩, rfl, -⟩ := hr'
  simp only [List.drop_left]
  exact (append_lt_append_iff l s s').1 ((compare_eq_lt_iff _ _).1 hlt)

theorem mem_names {name : String} : name ∈ t.names l ↔ ∃ n, t.get? (l ++ [name]) = some n := by
  simp only [names, List.mem_filterMap, Prod.exists]
  constructor
  · rintro ⟨k, n, hm, he⟩
    split at he
    · rename_i h
      refine ⟨n, ?_⟩
      have hk : k = l ++ [name] := by
        rw [← h]
        exact (List.dropLast_append_getLast? name he).symm
      rw [← hk]
      exact (mem_entries.1 hm).2
    · cases he
  · rintro ⟨n, hg⟩
    exact ⟨l ++ [name], n, mem_entries.2 ⟨by simp, hg⟩, by simp⟩

theorem names_pairwise (t : FileTree) (l : Location) : (t.names l).Pairwise (· < ·) := by
  refine t.entries_pairwise.filterMap _ ?_
  rintro ⟨k, n⟩ ⟨k', n'⟩ hlt a ha a' ha'
  simp only [Option.ite_none_right_eq_some] at ha ha'
  have hk : k = l ++ [a] := by
    rw [← ha.1]
    exact (List.dropLast_append_getLast? a ha.2).symm
  have hk' : k' = l ++ [a'] := by
    rw [← ha'.1]
    exact (List.dropLast_append_getLast? a' ha'.2).symm
  subst hk hk'
  have hnames := (append_lt_append_iff l [a] [a']).1 ((compare_eq_lt_iff _ _).1 hlt)
  simpa [List.cons_lt_cons_iff] using hnames

end ApiScaffold.FileTree
