import Std.Data.ExtTreeMap

/-! File trees: a finite map from places to files and directories in which every entry lies
in a directory. -/
namespace ApiScaffold

inductive Node where
  | directory
  | file (content : ByteArray)

instance : DecidableEq Node
  | .directory, .directory => .isTrue rfl
  | .directory, .file _ | .file _, .directory => .isFalse nofun
  | .file a, .file b => decidable_of_iff (a.data = b.data) (by cases a; cases b; simp)

/-- The names from the root to a place. -/
abbrev Location := List String

structure FileTree where
  entries : Std.ExtTreeMap Location Node compare
  parent_isDirectory : ∀ l ∈ entries, l ≠ [] ∧
    (l.dropLast = [] ∨ entries[l.dropLast]? = some .directory)

namespace FileTree

def empty : FileTree :=
  ⟨∅, by simp⟩

instance : EmptyCollection FileTree := ⟨empty⟩

instance : DecidableEq FileTree := fun s t =>
  decidable_of_iff (s.entries.toList = t.entries.toList) <| by
    rw [Std.ExtTreeMap.toList_inj]
    constructor
    · intro h
      cases s
      cases t
      subst h
      rfl
    · rintro rfl
      rfl

/-- What is at a place. The root is a directory. -/
def get? (t : FileTree) (l : Location) : Option Node :=
  if l = [] then some .directory else t.entries[l]?

@[ext] theorem ext_get? {s t : FileTree} (h : ∀ l, s.get? l = t.get? l) : s = t := by
  have hnil (u : FileTree) : u.entries[([] : Location)]? = none :=
    Std.ExtTreeMap.getElem?_eq_none fun hm => (u.parent_isDirectory [] hm).1 rfl
  have he : s.entries = t.entries := by
    apply Std.ExtTreeMap.ext_getElem?
    intro l
    by_cases hl : l = []
    · rw [hl, hnil, hnil]
    · simpa [get?, hl] using h l
  cases s
  cases t
  subst he
  rfl

@[simp] theorem get?_root (t : FileTree) : t.get? [] = some .directory := by
  simp [get?]

theorem get?_dropLast {t : FileTree} {l : Location} {n : Node} (h : t.get? l = some n) :
    t.get? l.dropLast = some .directory := by
  by_cases hl : l = []
  · simp [hl]
  · have hm : l ∈ t.entries := by
      rw [← Std.ExtTreeMap.isSome_getElem?_iff_mem]
      simpa [get?, hl] using congrArg Option.isSome h
    rcases (t.parent_isDirectory l hm).2 with hd | hd
    · simp [hd]
    · by_cases he : l.dropLast = []
      · simp [he]
      · simpa [get?, he] using hd

private theorem ne_nil_of_get?_ne {t : FileTree} {l : Location}
    (h : t.get? l ≠ some .directory) : l ≠ [] := by
  rintro rfl
  simp at h

/-- Puts an entry into a directory where no directory is. -/
def insert (t : FileTree) (l : Location) (n : Node) (hl : t.get? l ≠ some .directory)
    (hp : t.get? l.dropLast = some .directory) : FileTree where
  entries := t.entries.insert l n
  parent_isDirectory k hk := by
    have hne := ne_nil_of_get?_ne hl
    have hlt : l ≠ l.dropLast := fun h => by
      have := congrArg List.length h
      have := List.length_pos_iff.2 hne
      simp at *
      omega
    simp only [Std.ExtTreeMap.getElem?_insert, Std.compare_eq_iff_eq]
    by_cases hkl : k = l
    · subst hkl
      refine ⟨hne, ?_⟩
      by_cases hd : k.dropLast = []
      · exact .inl hd
      · right
        rw [if_neg hlt]
        simpa [get?, hd] using hp
    · have hk' : k ∈ t.entries := by
        rcases Std.ExtTreeMap.mem_insert.1 hk with h | h
        · exact absurd (Std.compare_eq_iff_eq.1 h).symm hkl
        · exact h
      obtain ⟨hk0, hd⟩ := t.parent_isDirectory k hk'
      refine ⟨hk0, hd.imp_right fun hd => ?_⟩
      rw [if_neg]
      · exact hd
      · intro h
        rw [← h] at hd
        exact hl (by simp [get?, hne, hd])

theorem get?_insert {t : FileTree} {l : Location} {n : Node} {hl hp} (k : Location) :
    (t.insert l n hl hp).get? k = if l = k then some n else t.get? k := by
  have hne := ne_nil_of_get?_ne hl
  by_cases hk : k = []
  · subst hk
    simp [hne]
  · simp [get?, hk, insert, Std.ExtTreeMap.getElem?_insert]

/-- Takes away a place and all below it. -/
def erase (t : FileTree) (l : Location) : FileTree where
  entries := t.entries.filter fun k _ => !l.isPrefixOf k
  parent_isDirectory k hk := by
    obtain ⟨hk, hf⟩ := Std.ExtTreeMap.mem_filter.1 hk
    rw [Std.ExtTreeMap.getKey_eq] at hf
    obtain ⟨hk0, hd⟩ := t.parent_isDirectory k hk
    refine ⟨hk0, hd.imp_right fun hd => ?_⟩
    rw [Std.ExtTreeMap.getElem?_filter', hd, Option.filter_some, if_pos]
    simp only [Bool.not_eq_true', Bool.eq_false_iff, ne_eq, List.isPrefixOf_iff_prefix] at hf ⊢
    exact fun h => hf (h.trans (List.dropLast_prefix k))

end FileTree
end ApiScaffold
