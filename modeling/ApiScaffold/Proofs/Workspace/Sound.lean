import ApiScaffold.Proofs.Workspace.Outcome

/-! Sound workspaces: every name in the tree is one that a path can follow, and one stands in a
directory. Work that makes the tree grow at places that paths lead to keeps this. -/
namespace ApiScaffold

/-- A place whose names a path can follow: none leads back, none is too long, none has NUL. -/
def FileTree.Fits (l : Location) : Prop :=
  ∀ name ∈ l, name ≠ ".." ∧ name.utf8ByteSize ≤ nameLimit ∧ '\x00' ∉ name.toList

instance (l : Location) : Decidable (FileTree.Fits l) :=
  inferInstanceAs (Decidable (∀ name ∈ l, _))

/-- The names in the tree are such that the system can hold them, and relative paths start
in a directory. -/
def Workspace.Sound (w : Workspace) : Prop :=
  (∀ l n, w.tree.get? l = some n → FileTree.Fits l) ∧ w.tree.get? w.place = some .directory

/-- A path leads to a directory. -/
def Workspace.Opens (w : Workspace) (p : Path) (l : Location) : Prop :=
  w.Reaches p l ∧ w.tree.get? l = some .directory

namespace FileTree
variable {l r : Location}

theorem fits_nil : Fits [] := by simp [Fits]

theorem Fits.append (hl : Fits l) (hr : Fits r) : Fits (l ++ r) := by
  intro name hm
  rcases List.mem_append.1 hm with hm | hm
  · exact hl name hm
  · exact hr name hm

theorem Fits.of_append_left (h : Fits (l ++ r)) : Fits l :=
  fun name hm => h name (List.mem_append_left r hm)

theorem Fits.of_append_right (h : Fits (l ++ r)) : Fits r :=
  fun name hm => h name (List.mem_append_right l hm)

theorem Fits.not_mem (h : Fits l) : ".." ∉ l :=
  fun hm => (h ".." hm).1 rfl

theorem Fits.hasNul (h : Fits l) (base : Path.Base) : (⟨base, l⟩ : Path).hasNul = false := by
  rw [Path.hasNul, List.any_eq_false]
  intro name hm
  simpa using (h name hm).2.2

end FileTree

namespace Workspace
variable {w w' : Workspace} {p : Path} {l : Location}

theorem Sound.place (h : w.Sound) : FileTree.Fits w.place :=
  h.1 _ _ h.2

theorem bare_sound : bare.Sound := by
  refine ⟨fun l n hl => ?_, FileTree.get?_root _⟩
  by_cases hne : l = []
  · exact hne ▸ FileTree.fits_nil
  · rw [bare, FileTree.get?_empty hne] at hl
    cases hl

theorem get?_bare_ne_file (l : Location) (content : ByteArray) :
    bare.tree.get? l ≠ some (.file content) := by
  by_cases hne : l = []
  · simp [hne]
  · rw [bare, FileTree.get?_empty hne]
    nofun

theorem not_opens (h : ¬ w.Opens p (FileTree.placeOf w.place p)) (l : Location) : ¬ w.Opens p l :=
  fun hl => h (hl.1.eq ▸ hl)

theorem Reaches.fits (hr : w.Reaches p l) (h : FileTree.Fits w.place) : FileTree.Fits l := by
  intro name hm
  obtain ⟨hnul, hloc⟩ := hr
  rw [FileTree.locate_eq_ok hloc, FileTree.placeOf_eq] at hm
  unfold FileTree.locate at hloc
  split at hloc
  · cases hloc
  rcases Path.mem_follow hm with hm | ⟨hm, hup⟩
  · split at hm
    · simp at hm
    · exact h name hm
  · refine ⟨hup, FileTree.walk_fits hloc name hm, fun hn => ?_⟩
    rw [Path.hasNul, List.any_eq_false] at hnul
    exact hnul name hm (by simpa using hn)

theorem Sound.grows (h : w.Sound) (hb : w.Beside w')
    (hg : FileTree.Grows FileTree.Fits FileTree.Fits w.tree w'.tree) : w'.Sound := by
  refine ⟨fun l n hl => ?_, ?_⟩
  · rcases hg l with he | ⟨hf, -⟩ | ⟨hf, -⟩
    · exact h.1 l n (he ▸ hl)
    · exact hf
    · exact hf
  · rw [hb.place]
    exact hg.directory h.2

/-- Other contents of files change nothing. -/
theorem Sound.refilled (h : w.Sound) (hb : w.Beside w')
    (hr : FileTree.Refilled w.tree w'.tree) : w'.Sound := by
  refine ⟨fun l n hl => ?_, ?_⟩
  · obtain ⟨m, hm⟩ := (hr.exists_iff l).1 ⟨n, hl⟩
    exact h.1 l m hm
  · rw [hb.place]
    exact (hr.directory_iff _).2 h.2

theorem Reaches.short (h : w.Reaches p l) : p.text.utf8ByteSize < FileTree.pathLimit := by
  obtain ⟨-, hloc⟩ := h
  unfold FileTree.locate at hloc
  split at hloc
  · cases hloc
  · omega

/-- Straight down from the root a path leads where its names say, if its spelling is short
enough. -/
theorem reaches_root (hfit : FileTree.Fits l) (hd : w.tree.get? l.dropLast = some .directory)
    (hsize : (⟨.root, l⟩ : Path).text.utf8ByteSize < FileTree.pathLimit) :
    w.Reaches ⟨.root, l⟩ l := by
  refine ⟨hfit.hasNul _, ?_⟩
  rw [FileTree.locate, if_neg (by omega)]
  exact FileTree.walk_of_directory (fun name hm => (hfit name hm).2.1) hfit.not_mem fun _ => hd

theorem Sound.reaches {n : Node} (h : w.Sound) (hl : w.tree.get? l = some n) (hne : l ≠ [])
    (hsize : Path.spelledSize l < FileTree.pathLimit) : w.Reaches ⟨.root, l⟩ l := by
  refine reaches_root (h.1 l n hl) (FileTree.get?_dropLast hl) ?_
  rwa [Path.utf8ByteSize_text_root hne]

/-- A path that leads on from another leads through a directory there. -/
theorem Reaches.opens_above {base : Path.Base} {names r : List String}
    (h : w.Reaches ⟨base, names ++ r⟩ l) (hr : r ≠ []) : ∃ d, w.Opens ⟨base, names⟩ d := by
  have hshort := h.short
  have hsize : (⟨base, names⟩ : Path).text.utf8ByteSize < FileTree.pathLimit := by
    by_cases hn : names = []
    · subst hn
      have hempty : (⟨base, []⟩ : Path).text.utf8ByteSize ≤ 2 := by cases base <;> decide
      have : FileTree.pathLimit = 4096 := rfl
      omega
    · have hlong := Path.utf8ByteSize_text (p := ⟨base, names ++ r⟩) (by simp [hn])
      have := Path.utf8ByteSize_text (p := ⟨base, names⟩) hn
      simp only [Path.spelledSize_append] at hlong this
      omega
  obtain ⟨hnul, hloc⟩ := h
  rw [FileTree.locate, if_neg (by omega), FileTree.walk_append] at hloc
  change w.tree.walk (if (⟨base, names⟩ : Path).isAbsolute then [] else w.place) names >>=
    _ = _ at hloc
  cases hd : w.tree.walk (if (⟨base, names⟩ : Path).isAbsolute then [] else w.place) names with
  | error e =>
    rw [hd] at hloc
    cases hloc
  | ok d =>
    rw [hd] at hloc
    refine ⟨d, ⟨?_, ?_⟩, FileTree.walk_directory hr hloc⟩
    · rw [Path.hasNul, List.any_eq_false] at hnul ⊢
      exact fun name hm => hnul name (List.mem_append_left r hm)
    · rw [FileTree.locate, if_neg (by omega)]
      exact hd

theorem Opens.locate_of_short {r : List String} {d : Location} (h : w.Opens p d)
    (hshort : (⟨p.base, p.names ++ r⟩ : Path).text.utf8ByteSize < FileTree.pathLimit) :
    w.tree.locate w.place ⟨p.base, p.names ++ r⟩ = w.tree.walk d r := by
  obtain ⟨⟨-, hloc⟩, -⟩ := h
  unfold FileTree.locate at hloc ⊢
  split at hloc
  · cases hloc
  rw [if_neg (by omega), FileTree.walk_append]
  change w.tree.walk (if p.isAbsolute then [] else w.place) p.names >>= _ = _
  rw [hloc]
  rfl

theorem Opens.locate {r : List String} {d : Location} (h : w.Opens p d)
    (hsize : p.text.utf8ByteSize + Path.spelledSize r < FileTree.pathLimit) :
    w.tree.locate w.place ⟨p.base, p.names ++ r⟩ = w.tree.walk d r :=
  h.locate_of_short ((Path.utf8ByteSize_text_append p.base p.names r).trans_lt hsize)

theorem Opens.hasNul {r : List String} {d : Location} (h : w.Opens p d) (hfit : FileTree.Fits r) :
    (⟨p.base, p.names ++ r⟩ : Path).hasNul = false := by
  obtain ⟨⟨hnul, -⟩, -⟩ := h
  rw [Path.hasNul, List.any_eq_false] at hnul ⊢
  intro name hm
  rcases List.mem_append.1 hm with hm | hm
  · exact hnul name hm
  · simpa using (hfit name hm).2.2

/-- A path that goes on straight down in a directory, through directories, leads there if its
spelling is short enough. -/
theorem Opens.reaches_of_short {r : List String} {d : Location} (h : w.Opens p d)
    (hfit : FileTree.Fits r) (hd : r ≠ [] → w.tree.get? (d ++ r.dropLast) = some .directory)
    (hshort : (⟨p.base, p.names ++ r⟩ : Path).text.utf8ByteSize < FileTree.pathLimit) :
    w.Reaches ⟨p.base, p.names ++ r⟩ (d ++ r) := by
  refine ⟨h.hasNul hfit, ?_⟩
  rw [h.locate_of_short hshort]
  exact FileTree.walk_of_directory (fun name hm => (hfit name hm).2.1) hfit.not_mem hd

theorem Opens.reaches {r : List String} {d : Location} (h : w.Opens p d) (hfit : FileTree.Fits r)
    (hd : r ≠ [] → w.tree.get? (d ++ r.dropLast) = some .directory)
    (hsize : p.text.utf8ByteSize + Path.spelledSize r < FileTree.pathLimit) :
    w.Reaches ⟨p.base, p.names ++ r⟩ (d ++ r) :=
  h.reaches_of_short hfit hd ((Path.utf8ByteSize_text_append p.base p.names r).trans_lt hsize)

theorem Opens.reaches_child {name : String} {d : Location}
    (h : w.Opens p d) (hfit : FileTree.Fits [name])
    (hsize : p.text.utf8ByteSize + (name.utf8ByteSize + 1) < FileTree.pathLimit) :
    w.Reaches ⟨p.base, p.names ++ [name]⟩ (d ++ [name]) := by
  apply h.reaches hfit
  · intro _
    simpa using h.2
  · simpa using hsize

theorem Opens.reaches_file {r : List String} {d : Location} {content : ByteArray} (h : w.Opens p d)
    (hfit : FileTree.Fits r)
    (hshort : (⟨p.base, p.names ++ r⟩ : Path).text.utf8ByteSize < FileTree.pathLimit)
    (hl : w.tree.get? (d ++ r) = some (.file content)) :
    w.Reaches ⟨p.base, p.names ++ r⟩ (d ++ r) := by
  refine h.reaches_of_short hfit (fun hne => ?_) hshort
  have hd := FileTree.get?_dropLast hl
  rwa [List.dropLast_append_of_ne_nil hne] at hd

theorem Opens.grows {made written : Location → Prop} (h : w.Opens p l) (hb : w.Beside w')
    (hg : FileTree.Grows made written w.tree w'.tree) : w'.Opens p l :=
  ⟨h.1.grows hb hg, hg.directory h.2⟩

theorem opens_iff_of_refilled (hb : w.Beside w') (hr : FileTree.Refilled w.tree w'.tree) :
    w'.Opens p l ↔ w.Opens p l := by
  rw [Opens, Opens, Reaches, Reaches, hb.place, hr.locate, hr.directory_iff]

theorem bare_opens : bare.Opens ⟨.root, []⟩ [] :=
  ⟨reaches_root FileTree.fits_nil (FileTree.get?_root _) (by decide), FileTree.get?_root _⟩

/-- A workspace with a file in it and nothing else. -/
theorem exists_lone_file {name : String} (hn : FileTree.Fits [name]) (s : String) : ∃ w : Workspace,
    w.Sound ∧ w.place = [] ∧ w.Reaches ⟨.here, [name]⟩ [name] ∧ ∀ l n, w.tree.get? l = some n ↔
      l = [] ∧ n = .directory ∨ l = [name] ∧ n = .file (Text.encode s) := by
  have hopens : bare.Opens ⟨.here, []⟩ [] := ⟨⟨rfl, rfl⟩, FileTree.get?_root _⟩
  have hsize : name.utf8ByteSize ≤ 255 := (hn name List.mem_cons_self).2.1
  have hdot : (⟨.here, []⟩ : Path).text.utf8ByteSize = 1 := by decide
  have hlimit : FileTree.pathLimit = 4096 := rfl
  have hreach : bare.Reaches ⟨.here, [name]⟩ [name] := by
    refine hopens.reaches hn (fun _ => FileTree.get?_root _) ?_
    simp only [Path.spelledSize_cons, Path.spelledSize_nil, hdot]
    omega
  have hempty {l : Location} (hl : l ≠ []) : bare.tree.get? l = none := FileTree.get?_empty hl
  have hnew : bare.tree.get? [name] ≠ some .directory := by simp [hempty]
  obtain ⟨t, -, ht⟩ := Work.writeText_of_reaches hreach hnew (FileTree.get?_root _) s
  have hg := FileTree.grows_of_get? hnew ht
  have hb : bare.Beside { bare with tree := t } := ⟨t, _, rfl⟩
  have hsound := bare_sound.grows hb (hg.mono (fun _ h _ => h.elim) fun _ h _ => h ▸ hn)
  refine ⟨_, hsound, rfl, hreach.grows hb hg, fun l n => ?_⟩
  rw [ht]
  by_cases hl : l = []
  · simp [hl, eq_comm]
  · by_cases hname : l = [name]
    · simp [hname, eq_comm]
    · simp [hl, hname, Ne.symm hname, hempty hl]

theorem exists_file {name : String} (hn : FileTree.Fits [name]) (s : String) : ∃ w : Workspace,
    w.Reaches ⟨.here, [name]⟩ [name] ∧ w.tree.get? [name] = some (.file (Text.encode s)) := by
  obtain ⟨w, -, -, hr, hget⟩ := exists_lone_file hn s
  exact ⟨w, hr, (hget _ _).2 (.inr ⟨rfl, rfl⟩)⟩

/-- Beyond the root no step back leads. -/
theorem opens_up {n : ℕ} (hplace : w.place = []) (hn : n ≤ 1364) :
    w.Opens ⟨.here, List.replicate n ".."⟩ [] := by
  have hwalk : w.tree.walk [] (List.replicate n "..") = .ok [] := by
    induction n with
    | zero => rfl
    | succ n ih =>
      rw [List.replicate_succ, FileTree.walk, FileTree.get?_root]
      exact ih (by omega)
  have hnul : (⟨.here, List.replicate n ".."⟩ : Path).hasNul = false := by
    rw [Path.hasNul, List.any_eq_false]
    intro name hm
    rw [List.eq_of_mem_replicate hm]
    decide
  have hshort : (⟨.here, List.replicate n ".."⟩ : Path).text.utf8ByteSize < FileTree.pathLimit := by
    have hlong := Path.utf8ByteSize_text_append .here [] (List.replicate n "..")
    have hdot : (⟨.here, []⟩ : Path).text.utf8ByteSize = 1 := by decide
    have htwo : "..".utf8ByteSize = 2 := by decide
    have hlimit : FileTree.pathLimit = 4096 := rfl
    rw [Path.spelledSize_replicate, hdot, htwo] at hlong
    rw [List.nil_append] at hlong
    omega
  refine ⟨⟨hnul, ?_⟩, FileTree.get?_root _⟩
  rw [FileTree.locate, if_neg (Nat.not_le.2 hshort), hplace]
  exact hwalk

end Workspace
end ApiScaffold
