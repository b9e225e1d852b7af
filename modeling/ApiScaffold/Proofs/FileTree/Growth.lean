import ApiScaffold.Proofs.FileTree.Walk

/-! How a file tree grows: directories are made where nothing was and files are written, each in a
region of its own, and all else stays. Growth goes on from step to step. -/
namespace ApiScaffold.FileTree
variable {made written : Location → Prop} {s t u : FileTree}

/-- At each place nothing changes, or a directory is made in its region, or a file is written
in its region. -/
def Grows (made written : Location → Prop) (s t : FileTree) : Prop :=
  ∀ l, t.get? l = s.get? l ∨ made l ∧ s.get? l = none ∧ t.get? l = some .directory ∨
    written l ∧ s.get? l ≠ some .directory ∧ ∃ content, t.get? l = some (.file content)

theorem Grows.refl (made written : Location → Prop) (s : FileTree) : Grows made written s s :=
  fun _ => .inl rfl

theorem Grows.trans (h : Grows made written s t) (h' : Grows made written t u) :
    Grows made written s u := by
  intro l
  rcases h' l with hu | ⟨hm, hn, hd⟩ | ⟨hw, hn, hc⟩
  · rw [hu]
    exact h l
  · rcases h l with ht | ⟨-, -, ht⟩ | ⟨-, -, c, ht⟩
    · exact .inr (.inl ⟨hm, ht ▸ hn, hd⟩)
    · simp [ht] at hn
    · simp [ht] at hn
  · rcases h l with ht | ⟨-, -, ht⟩ | ⟨-, hs, -⟩
    · exact .inr (.inr ⟨hw, ht ▸ hn, hc⟩)
    · exact absurd ht hn
    · exact .inr (.inr ⟨hw, hs, hc⟩)

/-- A region can be replaced by one that agrees where something could have been made or written. -/
theorem Grows.mono {made' written' : Location → Prop} (h : Grows made written s t)
    (hm : ∀ l, made l → s.get? l = none → made' l)
    (hw : ∀ l, written l → s.get? l ≠ some .directory → written' l) : Grows made' written' s t := by
  intro l
  rcases h l with h | ⟨h, hn, h'⟩ | ⟨h, hn, h'⟩
  · exact .inl h
  · exact .inr (.inl ⟨hm l h hn, hn, h'⟩)
  · exact .inr (.inr ⟨hw l h hn, hn, h'⟩)

theorem Grows.directory (h : Grows made written s t) {l : Location}
    (hl : s.get? l = some .directory) : t.get? l = some .directory := by
  rcases h l with h | ⟨-, h, -⟩ | ⟨-, h, -⟩
  · rw [h, hl]
  · simp [hl] at h
  · exact absurd hl h

theorem Grows.file (h : Grows made written s t) {l : Location} {content : ByteArray}
    (hl : s.get? l = some (.file content)) : ∃ content', t.get? l = some (.file content') := by
  rcases h l with h | ⟨-, h, -⟩ | ⟨-, -, h⟩
  · exact ⟨content, by rw [h, hl]⟩
  · simp [hl] at h
  · exact h

theorem Grows.of_not_written (h : Grows made written s t) {l : Location} {n : Node}
    (hl : s.get? l = some n) (hw : ¬ written l) : t.get? l = some n := by
  rcases h l with h | ⟨-, h, -⟩ | ⟨h, -⟩
  · rw [h, hl]
  · simp [hl] at h
  · exact absurd h hw

theorem Grows.eq_of_not (h : Grows made written s t) {l : Location} (hm : ¬ made l)
    (hw : ¬ written l) : t.get? l = s.get? l := by
  rcases h l with h | ⟨h, -⟩ | ⟨h, -⟩
  · exact h
  · exact absurd h hm
  · exact absurd h hw

theorem Grows.walk (h : Grows made written s t) {place l : Location} {names : List String}
    (hw : s.walk place names = .ok l) : t.walk place names = .ok l := by
  induction names generalizing place with
  | nil => exact hw
  | cons name names ih =>
    have hd : s.get? place = some .directory := walk_directory (by simp) hw
    rw [FileTree.walk, hd] at hw
    rw [FileTree.walk, h.directory hd]
    simp only at hw ⊢
    split at hw
    · cases hw
    · rename_i hs
      rw [if_neg hs]
      exact ih hw

theorem Grows.locate (h : Grows made written s t) {place l : Location} {p : Path}
    (hp : s.locate place p = .ok l) : t.locate place p = .ok l := by
  unfold FileTree.locate at hp ⊢
  split at hp
  · cases hp
  · rename_i hs
    rw [if_neg hs]
    exact h.walk hp

theorem grows_of_get? {l : Location} {content : ByteArray} (hl : s.get? l ≠ some .directory)
    (h : ∀ k, t.get? k = if l = k then some (.file content) else s.get? k) :
    Grows (fun _ => False) (· = l) s t := by
  intro k
  rw [h]
  by_cases hk : l = k
  · subst hk
    exact .inr (.inr ⟨rfl, hl, content, by simp⟩)
  · exact .inl (by simp [hk])

theorem grows_of_writeAt {l : Location} {content : ByteArray} (h : s.writeAt l content = .ok t) :
    Grows (fun _ => False) (· = l) s t := by
  have hl : s.get? l ≠ some .directory := by
    intro hd
    simp [writeAt, hd] at h
  exact grows_of_get? hl fun k => get?_of_writeAt h

theorem grows_of_makeDirectoryAt {l : Location} (h : s.makeDirectoryAt l = .ok t) :
    Grows (· = l) (fun _ => False) s t := by
  have hl : s.get? l = none := by
    by_contra hn
    simp [makeDirectoryAt, hn] at h
  intro k
  rw [get?_of_makeDirectoryAt h]
  by_cases hk : l = k
  · subst hk
    exact .inr (.inl ⟨rfl, hl, by simp⟩)
  · exact .inl (by simp [hk])

/-- Two trees in which the same directories and files stand; only what is in the files may
differ. -/
def Refilled (s t : FileTree) : Prop :=
  ∀ l, t.get? l = s.get? l ∨ ∃ a b, s.get? l = some (.file a) ∧ t.get? l = some (.file b)

theorem Refilled.directory_iff (h : Refilled s t) (l : Location) :
    t.get? l = some .directory ↔ s.get? l = some .directory := by
  rcases h l with he | ⟨a, b, hs, ht⟩
  · rw [he]
  · rw [hs, ht]
    simp

theorem Refilled.exists_iff (h : Refilled s t) (l : Location) :
    (∃ n, t.get? l = some n) ↔ ∃ n, s.get? l = some n := by
  rcases h l with he | ⟨a, b, hs, ht⟩
  · rw [he]
  · exact iff_of_true ⟨_, ht⟩ ⟨_, hs⟩

theorem Refilled.walk (h : Refilled s t) (place : Location) (names : List String) :
    t.walk place names = s.walk place names := by
  induction names generalizing place with
  | nil => rfl
  | cons name names ih =>
    rw [FileTree.walk, FileTree.walk]
    rcases h place with he | ⟨a, b, hs, ht⟩
    · simp only [he, ih]
    · rw [hs, ht]

theorem Refilled.locate (h : Refilled s t) (place : Location) (p : Path) :
    t.locate place p = s.locate place p := by
  rw [FileTree.locate, FileTree.locate, h.walk]

end ApiScaffold.FileTree
