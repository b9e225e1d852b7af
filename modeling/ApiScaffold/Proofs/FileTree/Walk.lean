import ApiScaffold.FileTree.Access
import ApiScaffold.Proofs.Path.Follow

/-! Ways in a file tree: a way that can be walked ends where its names lead, and it can be walked if
it stays in directories and its names are fit to be followed. -/
namespace ApiScaffold.FileTree

theorem get?_empty {l : Location} (hl : l ≠ []) : (∅ : FileTree).get? l = none := by
  rw [get?, if_neg hl]
  exact Std.ExtTreeMap.getElem?_empty

/-- Only a directory has anything below it. -/
theorem get?_of_append {t : FileTree} {l r : Location} {n : Node} (hr : r ≠ [])
    (h : t.get? (l ++ r) = some n) : t.get? l = some .directory := by
  induction r using List.reverseRecOn generalizing n with
  | nil => exact absurd rfl hr
  | append_singleton r name ih =>
    have hd := get?_dropLast h
    rw [← List.append_assoc, List.dropLast_concat] at hd
    by_cases hr' : r = []
    · rwa [hr', List.append_nil] at hd
    · exact ih hr' hd

theorem get?_append_of_ne {t : FileTree} {l r : Location} (hr : r ≠ [])
    (h : t.get? l ≠ some .directory) : t.get? (l ++ r) = none := by
  cases hg : t.get? (l ++ r) with
  | none => rfl
  | some n => exact absurd (get?_of_append hr hg) h

theorem get?_of_append_directory {t : FileTree} {l r : Location}
    (h : t.get? (l ++ r) = some .directory) : t.get? l = some .directory := by
  by_cases hr : r = []
  · rwa [hr, List.append_nil] at h
  · exact get?_of_append hr h

theorem walk_eq_follow {t : FileTree} {place l : Location} {names : List String}
    (h : t.walk place names = .ok l) : l = Path.follow place names := by
  induction names generalizing place with
  | nil => exact (Except.ok.inj h).symm
  | cons name names ih =>
    rw [walk] at h
    split at h
    · cases h
    · cases h
    · split at h
      · cases h
      · exact ih h

theorem walk_append (t : FileTree) (place : Location) (a b : List String) :
    t.walk place (a ++ b) = t.walk place a >>= fun l => t.walk l b := by
  induction a generalizing place with
  | nil => rfl
  | cons name names ih =>
    rw [List.cons_append, walk, walk]
    split
    · rfl
    · rfl
    · split
      · rfl
      · exact ih _

/-- A way that leads on from a place leads there through a directory. -/
theorem walk_directory {t : FileTree} {place l : Location} {names : List String} (hn : names ≠ [])
    (h : t.walk place names = .ok l) : t.get? place = some .directory := by
  cases names with
  | nil => exact absurd rfl hn
  | cons name names =>
    rw [walk] at h
    split at h
    · cases h
    · cases h
    · assumption

theorem walk_fits {t : FileTree} {place l : Location} {names : List String}
    (h : t.walk place names = .ok l) : ∀ name ∈ names, name.utf8ByteSize ≤ nameLimit := by
  induction names generalizing place with
  | nil => simp
  | cons name names ih =>
    rw [walk] at h
    split at h
    · cases h
    · cases h
    · split at h
      · cases h
      · rename_i hs
        intro n hn
        rcases List.mem_cons.1 hn with rfl | hn
        · exact Nat.not_lt.1 hs
        · exact ih h n hn

/-- A way straight down can be walked as far as the directory in which it ends. -/
theorem walk_of_directory {t : FileTree} {place : Location} {names : List String}
    (hfit : ∀ name ∈ names, name.utf8ByteSize ≤ nameLimit) (hup : ".." ∉ names)
    (hd : names ≠ [] → t.get? (place ++ names.dropLast) = some .directory) :
    t.walk place names = .ok (place ++ names) := by
  induction names generalizing place with
  | nil => simp [walk]
  | cons name names ih =>
    have hp : t.get? place = some .directory := get?_of_append_directory (hd (by simp))
    rw [List.mem_cons, not_or] at hup
    have hf : ¬ nameLimit < name.utf8ByteSize := Nat.not_lt.2 (hfit name List.mem_cons_self)
    rw [walk, hp]
    simp only [hf, if_false, Ne.symm hup.1]
    rw [ih (fun n hn => hfit n (List.mem_cons_of_mem name hn)) hup.2]
    · simp
    · intro hne
      have := hd (by simp)
      rwa [List.dropLast_cons_of_ne_nil hne, ← List.singleton_append, ← List.append_assoc] at this

/-- A way straight down on which a directory is missing cannot be walked for just that reason. -/
theorem walk_of_missing {t : FileTree} {place : Location} {names : List String} (name : String)
    (hfit : ∀ n ∈ names, n.utf8ByteSize ≤ nameLimit) (hup : ".." ∉ names)
    (hfree : ∀ ns, ns <+: names → ∀ content, t.get? (place ++ ns) ≠ some (.file content))
    (hnone : t.get? (place ++ names) = none) :
    t.walk place (names ++ [name]) = .error .missing := by
  induction names generalizing place with
  | nil =>
    rw [List.append_nil] at hnone
    rw [List.nil_append, walk, hnone]
  | cons a names ih =>
    rw [List.mem_cons, not_or] at hup
    have hf : ¬ nameLimit < a.utf8ByteSize := Nat.not_lt.2 (hfit a List.mem_cons_self)
    rw [List.cons_append, walk]
    cases hp : t.get? place with
    | none => rfl
    | some n =>
      cases n with
      | file content => exact absurd hp (by simpa using hfree [] (List.nil_prefix) content)
      | directory =>
        simp only [hf, if_false, Ne.symm hup.1]
        refine ih (fun n hn => hfit n (List.mem_cons_of_mem a hn)) hup.2 (fun ns hns content => ?_)
          (by simpa using hnone)
        simpa using hfree (a :: ns) (List.cons_prefix_cons.2 ⟨rfl, hns⟩) content

/-- Where a path leads for one who stands at `place`, if nothing is in the way. -/
def placeOf (place : Location) (p : Path) : Location :=
  (p.absolute place).names

theorem placeOf_eq (place : Location) (p : Path) :
    placeOf place p = Path.follow (if p.isAbsolute then [] else place) p.names :=
  rfl

theorem placeOf_append {names : List String} (h : ".." ∉ names) (place : Location) (p : Path) :
    placeOf place ⟨p.base, p.names ++ names⟩ = placeOf place p ++ names := by
  rw [placeOf_eq, placeOf_eq, Path.follow_append, Path.follow_of_not_mem h]
  rfl

theorem placeOf_root {names : List String} (h : ".." ∉ names) (place : Location) :
    placeOf place ⟨.root, names⟩ = names := by
  rw [placeOf_eq, Path.follow_of_not_mem h]
  rfl

theorem not_mem_placeOf {place : Location} (h : ".." ∉ place) (p : Path) :
    ".." ∉ placeOf place p := by
  refine Path.not_mem_follow ?_ _
  split
  · exact List.not_mem_nil
  · exact h

/-- Straight down from where a path leads, whoever asks. -/
theorem placeOf_below {place : Location} (h : ".." ∉ place)
    (p : Path) {names : List String} (hn : ".." ∉ names) (other : Location) :
    placeOf other ⟨.root, placeOf place p ++ names⟩ = placeOf place p ++ names :=
  placeOf_root (by simp [not_mem_placeOf h p, hn]) other

theorem locate_eq_ok {t : FileTree} {place l : Location} {p : Path} (h : t.locate place p = .ok l) :
    l = placeOf place p := by
  unfold locate at h
  split at h
  · cases h
  · exact walk_eq_follow h

end ApiScaffold.FileTree
