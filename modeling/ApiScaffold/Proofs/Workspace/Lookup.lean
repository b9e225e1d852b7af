import ApiScaffold.Proofs.Workspace.Confined

/-! Looking along paths straight down from the root. What is found there depends on the place alone,
if its names can be followed and the path is short enough. What has been written once is left as it
is when it is written again. -/
namespace ApiScaffold
open FileTree
variable {w w' : Workspace} {l : Location}

/-- A way can only be too long where one of its names is. -/
theorem FileTree.walk_ne_nameTooLong {t : FileTree} {place : Location} {names : List String}
    (hfit : ∀ name ∈ names, name.utf8ByteSize ≤ nameLimit) :
    t.walk place names ≠ .error .nameTooLong := by
  induction names generalizing place with
  | nil =>
    intro h
    cases h
  | cons name names ih =>
    have hf : ¬ nameLimit < name.utf8ByteSize := Nat.not_lt.2 (hfit name List.mem_cons_self)
    rw [walk]
    split
    case h_1 | h_2 =>
      intro h
      cases h
    · rw [if_neg hf]
      exact ih fun n hn => hfit n (List.mem_cons_of_mem name hn)

namespace Work

theorem prefix_of_along {place : Location} {names : List String} (hup : ".." ∉ names)
    (h : Along place ⟨.root, names⟩ l) : l <+: names := by
  obtain ⟨ns, hns, rfl⟩ := h
  rwa [placeOf_root fun hm => hup (hns.mem hm)]

theorem status_root (hfit : Fits l) (hshort : (⟨.root, l⟩ : Path).text.utf8ByteSize < pathLimit) :
    status ⟨.root, l⟩ w = .ok (w.tree.get? l) w := by
  by_cases hd : w.tree.get? l.dropLast = some .directory
  · exact status_of_reaches (Workspace.reaches_root hfit hd hshort)
  have hnone : w.tree.get? l = none := by
    by_contra hsome
    obtain ⟨n, hn⟩ := Option.ne_none_iff_exists'.1 hsome
    exact hd (get?_dropLast hn)
  cases hs : status ⟨.root, l⟩ w with
  | ok n w₁ =>
    obtain ⟨rfl, hn⟩ := status_eq_ok hs
    cases n with
    | none => rw [hnone]
    | some node =>
      obtain ⟨k, hr, hk⟩ := (hn node).1 rfl
      obtain rfl : k = l := hr.eq.trans (placeOf_root hfit.not_mem _)
      rw [hnone] at hk
      cases hk
  | error e w₁ =>
    obtain ⟨-, -, hlong, -⟩ := status_eq_error_iff.1 hs
    rw [FileTree.locate, if_neg (by omega)] at hlong
    exact absurd hlong (walk_ne_nameTooLong fun name hm => (hfit name hm).2.1)

theorem short_of_status {n : Option Node} (hfit : Fits l) (h : status ⟨.root, l⟩ w = .ok n w') :
    (⟨.root, l⟩ : Path).text.utf8ByteSize < pathLimit := by
  by_contra hlong
  have herror : status ⟨.root, l⟩ w = .error _ w :=
    status_eq_error_iff.2 ⟨rfl, hfit.hasNul _,
      by rw [FileTree.locate, if_pos (Nat.not_lt.1 hlong)], rfl⟩
  rw [herror] at h
  cases h

theorem isDirectory_root (hfit : Fits l)
    (hshort : (⟨.root, l⟩ : Path).text.utf8ByteSize < pathLimit) :
    isDirectory ⟨.root, l⟩ w = .ok (w.tree.get? l = some .directory) w := by
  unfold isDirectory
  rw [bind_of_ok (status_root hfit hshort)]
  rfl

theorem names_of_not_directory (hd : w.tree.get? l ≠ some .directory) (name : String) :
    name ∉ w.tree.names l := by
  intro hm
  obtain ⟨n, hn⟩ := mem_names.1 hm
  exact hd (get?_of_append (by simp) hn)

theorem subdirectories_root (hfit : Fits l)
    (hshort : (⟨.root, l⟩ : Path).text.utf8ByteSize < pathLimit)
    (hentries : ∀ name ∈ w.tree.names l,
      (⟨.root, l ++ [name]⟩ : Path).text.utf8ByteSize < pathLimit) : subdirectories ⟨.root, l⟩ w =
      .ok ((w.tree.names l).filter fun name => w.tree.get? (l ++ [name]) = some .directory) w := by
  by_cases hd : w.tree.get? l = some .directory
  · exact subdirectories_of_opens ⟨Workspace.reaches_root hfit (get?_dropLast hd) hshort,
      hd⟩ hentries
  · have hempty : w.tree.names l = [] :=
      List.eq_nil_iff_forall_not_mem.2 (names_of_not_directory hd)
    unfold subdirectories
    rw [bind_of_ok (isDirectory_root hfit hshort), hempty]
    simp [hd, pure, EStateM.pure]

theorem subdirectories_eq_ok {found : List String} (hfit : Fits l)
    (h : subdirectories ⟨.root, l⟩ w = .ok found w') :
    w' = w ∧ (⟨.root, l⟩ : Path).text.utf8ByteSize < pathLimit ∧
      (∀ name ∈ w.tree.names l, (⟨.root, l ++ [name]⟩ : Path).text.utf8ByteSize < pathLimit) ∧
      found.Pairwise (· < ·) ∧ ∀ name, name ∈ found ↔
        w.tree.get? (l ++ [name]) = some .directory := by
  obtain ⟨b, w₁, hb, -⟩ := bind_eq_ok_iff.1 h
  obtain ⟨n, w₂, hs, -⟩ := bind_eq_ok_iff.1 hb
  have hshort := short_of_status hfit hs
  have hentries : ∀ name ∈ w.tree.names l,
      (⟨.root, l ++ [name]⟩ : Path).text.utf8ByteSize < pathLimit := by
    intro name hm
    by_cases hd : w.tree.get? l = some .directory
    · exact subdirectories_short ⟨Workspace.reaches_root hfit (get?_dropLast hd) hshort,
        hd⟩ h name hm
    · exact absurd hm (names_of_not_directory hd name)
  rw [subdirectories_root hfit hshort hentries] at h
  obtain ⟨rfl, rfl⟩ := EStateM.Result.ok.inj h
  refine ⟨rfl, hshort, hentries, (names_pairwise _ _).filter _, fun name => ?_⟩
  rw [List.mem_filter, mem_names, decide_eq_true_iff]
  exact and_iff_right_of_imp fun hdir => ⟨_, hdir⟩

theorem subdirectories_error {p : Path} {e : Failure}
    (h : subdirectories p w = .error e w') : w' = w := by
  cases hd : isDirectory p w with
  | error f w₁ =>
    rw [subdirectories, bind_of_error hd] at h
    obtain ⟨-, rfl⟩ := EStateM.Result.error.inj h
    exact (status_error (isDirectory_eq_error_iff.1 hd)).1
  | ok b w₁ =>
    obtain ⟨rfl, hopens⟩ := isDirectory_eq_ok hd
    rw [subdirectories, bind_of_ok hd] at h
    cases b with
    | false => cases h
    | true =>
      obtain ⟨l, hl⟩ := hopens.1 rfl
      rw [Bool.not_true, if_neg Bool.false_ne_true, bind_of_ok (get_ok w₁), hl.1.2] at h
      simp only at h
      generalize List.find? _ _ = long at h
      cases long with
      | some name => exact (EStateM.Result.error.inj h).2.symm
      | none => cases h

/-- Written again a text changes nothing. -/
theorem writeText_of_written {p : Path} {s : String} (hr : w.Reaches p l)
    (hl : w.tree.get? l = some (.file (Text.encode s))) : writeText p s w = .ok () w := by
  obtain ⟨t, hwrite, hget⟩ := writeText_of_reaches hr (by simp [hl]) (get?_dropLast hl) s
  have htree : t = w.tree := by
    ext k : 1
    rw [hget]
    split
    · rename_i hk
      rw [← hk, hl]
    · rfl
  rw [hwrite, htree]

end Work

theorem FileTree.Fits.mono {k : Location} (h : Fits l) (hk : k <+: l) : Fits k :=
  fun name hm => h name (hk.mem hm)

/-- A workspace with some directories and those above them, and nothing else. -/
theorem Workspace.exists_directories (ways : List Location)
    (hways : ∀ way ∈ ways, Fits way ∧ Path.spelledSize way + 1 < pathLimit) :
    ∃ w : Workspace, w.Sound ∧ w.place = [] ∧
      ∀ l n, w.tree.get? l = some n ↔ n = .directory ∧ (l = [] ∨ ∃ way ∈ ways, l <+: way) := by
  induction ways with
  | nil =>
    refine ⟨bare, bare_sound, rfl, fun l n => ?_⟩
    by_cases hl : l = []
    · simp [hl, eq_comm]
    · have hnone : bare.tree.get? l = none := get?_empty hl
      simp [hl, hnone]
  | cons way ways ih =>
    obtain ⟨⟨hfit, hsize⟩, hrest⟩ := List.forall_mem_cons.1 hways
    obtain ⟨w, hw, hplace, hget⟩ := ih hrest
    have hroot : w.Opens ⟨.root, []⟩ [] :=
      ⟨reaches_root fits_nil (get?_root _) (by decide), get?_root _⟩
    have hslash : (⟨.root, []⟩ : Path).text.utf8ByteSize = 1 := by decide
    obtain ⟨w', hmake⟩ :=
        Work.ensureDirectory_below hroot hfit (by omega) fun ms _ content hfile => by
      have hkind := ((hget _ _).1 hfile).1
      cases hkind
    change Work.ensureDirectory ⟨.root, way⟩ w = _ at hmake
    obtain ⟨hb, ⟨d, hopens⟩, -⟩ := Work.ensureDirectory_eq_ok hmake
    obtain rfl : d = way := hopens.1.eq.trans (placeOf_root hfit.not_mem _)
    have hconfined : Work.Confined w.place _ (fun _ => False) _ :=
      Work.confined_ensureDirectory ⟨.root, d⟩
    obtain ⟨-, hg⟩ := hconfined.of_ok rfl hmake
    have hg' : Grows (· <+: d) (fun _ => False) w.tree w'.tree :=
      hg.mono (fun l hl _ => Work.prefix_of_along hfit.not_mem hl) fun l hl _ => hl
    have hsound := hw.grows hb (hg'.mono (fun l hl _ => hfit.mono hl) fun l hl _ => hl.elim)
    refine ⟨w', hsound, hb.place.trans hplace, ?_⟩
    intro l n
    constructor
    · intro hl
      rcases hg' l with he | ⟨habove, -, hd⟩ | ⟨hno, -⟩
      · obtain ⟨hn, hbelow⟩ := (hget l n).1 (he ▸ hl)
        exact ⟨hn, hbelow.imp_right fun ⟨way, hm, hp⟩ => ⟨way, List.mem_cons_of_mem _ hm, hp⟩⟩
      · exact ⟨(Option.some.inj (hd.symm.trans hl)).symm, .inr ⟨d, List.mem_cons_self, habove⟩⟩
      · exact hno.elim
    · rintro ⟨rfl, rfl | ⟨way, hm, hp⟩⟩
      · exact get?_root _
      rcases List.mem_cons.1 hm with rfl | hm
      · obtain ⟨r, rfl⟩ := hp
        exact get?_of_append_directory hopens.2
      · exact hg'.directory ((hget l .directory).2 ⟨rfl, .inr ⟨way, hm, hp⟩⟩)

end ApiScaffold
