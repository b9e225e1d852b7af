import ApiScaffold.Proofs.FileTree.Listing
import ApiScaffold.Proofs.Workspace.Sound

/-! Making directories. Where it ends well the path leads to a directory, and the tree has grown by
directories only: by those on the way that were missing. -/
namespace ApiScaffold.Work
open FileTree
variable {α : Type} {w w' : Workspace} {p : Path} {l : Location} {existing : Bool} {levels : Nat}

theorem status_eq_ok {n : Option Node} (h : status p w = .ok n w') :
    w' = w ∧ ∀ node, n = some node ↔ ∃ l, w.Reaches p l ∧ w.tree.get? l = some node := by
  unfold status at h
  split at h
  · rename_i hn
    obtain ⟨rfl, rfl⟩ := EStateM.Result.ok.inj h
    refine ⟨rfl, fun node => ⟨nofun, ?_⟩⟩
    rintro ⟨l, hr, -⟩
    rw [hr.1] at hn
    cases hn
  · obtain ⟨rfl, hn, hs⟩ := look_eq_ok h
    refine ⟨rfl, fun node => ?_⟩
    unfold FileTree.status at hs
    cases hl : w'.tree.locate w'.place p with
    | ok l =>
      rw [hl] at hs
      obtain rfl := Except.ok.inj hs
      constructor
      · exact fun he => ⟨l, ⟨hn, hl⟩, he⟩
      · rintro ⟨k, ⟨-, hk⟩, he⟩
        obtain rfl := Except.ok.inj (hl.symm.trans hk)
        exact he
    | error r =>
      have hnone : n = none := by
        rw [hl] at hs
        cases r <;> first | exact (Except.ok.inj hs).symm | cases hs
      subst hnone
      refine ⟨nofun, ?_⟩
      rintro ⟨k, ⟨-, hk⟩, -⟩
      rw [hl] at hk
      cases hk

/-- What is at a path cannot be told if and only if the path is too long. -/
theorem status_eq_error_iff {e : Failure} : status p w = .error e w' ↔ w' = w ∧ p.hasNul = false ∧
    w.tree.locate w.place p = .error .nameTooLong ∧
    e = .system (Refusal.nameTooLong.error p) [] := by
  by_cases hn : p.hasNul
  · unfold status
    rw [if_pos hn]
    simp only [hn, Bool.true_eq_false, false_and, and_false, iff_false]
    nofun
  · have hn' : p.hasNul = false := by simpa using hn
    unfold status
    rw [if_neg hn, look_run, if_neg hn, FileTree.status]
    cases hl : w.tree.locate w.place p with
    | ok l => simp
    | error r =>
      cases r with
      | nameTooLong => simp [hn', eq_comm, and_comm]
      | missing | «exists» | notDirectory | isDirectory => simp

theorem status_error {e : Failure} (h : status p w = .error e w') : w' = w ∧
    w.tree.locate w.place p = .error .nameTooLong ∧
    e = .system (Refusal.nameTooLong.error p) [] := by
  obtain ⟨hw, -, hlong, he⟩ := status_eq_error_iff.1 h
  exact ⟨hw, hlong, he⟩

theorem status_of_reaches (h : w.Reaches p l) : status p w = .ok (w.tree.get? l) w := by
  unfold status
  rw [if_neg (by simp [h.1])]
  exact look_of_ok h.1 (by rw [FileTree.status, h.2])

theorem isDirectory_eq_ok {b : Bool} (h : isDirectory p w = .ok b w') :
    w' = w ∧ (b = true ↔ ∃ l, w.Opens p l) := by
  obtain ⟨n, w₁, hs, he⟩ := bind_eq_ok_iff.1 h
  obtain ⟨rfl, hn⟩ := status_eq_ok hs
  obtain ⟨rfl, rfl⟩ := EStateM.Result.ok.inj he
  exact ⟨rfl, by rw [decide_eq_true_iff, hn]; rfl⟩

theorem isDirectory_eq_error_iff {e : Failure} :
    isDirectory p w = .error e w' ↔ status p w = .error e w' := by
  unfold isDirectory
  cases h : status p w with
  | ok n w₁ => simp [bind_of_ok h, pure, EStateM.pure]
  | error e₁ w₁ => simp [bind_of_error h]

theorem isDirectory_of_opens (h : w.Opens p l) : isDirectory p w = .ok true w := by
  unfold isDirectory
  rw [bind_of_ok (status_of_reaches h.1), h.2]
  rfl

theorem subdirectories_of_opens (h : w.Opens p l) (hshort : ∀ name ∈ w.tree.names l,
      (⟨p.base, p.names ++ [name]⟩ : Path).text.utf8ByteSize < pathLimit) : subdirectories p w =
    .ok ((w.tree.names l).filter fun name => w.tree.get? (l ++ [name]) = some .directory) w := by
  have hnone : (w.tree.names l).find?
      (fun name => pathLimit ≤ (⟨p.base, p.names ++ [name]⟩ : Path).text.utf8ByteSize) = none := by
    rw [List.find?_eq_none]
    intro name hm
    simpa using hshort name hm
  unfold subdirectories
  rw [bind_of_ok (isDirectory_of_opens h), Bool.not_true, if_neg Bool.false_ne_true,
    bind_of_ok (get_ok w), h.1.2]
  simp only [hnone]
  rfl

theorem subdirectories_short {found : List String} (h : w.Opens p l)
    (hf : subdirectories p w = .ok found w') : ∀ name ∈ w.tree.names l,
      (⟨p.base, p.names ++ [name]⟩ : Path).text.utf8ByteSize < pathLimit := by
  unfold subdirectories at hf
  rw [bind_of_ok (isDirectory_of_opens h), Bool.not_true, if_neg Bool.false_ne_true,
    bind_of_ok (get_ok w), h.1.2] at hf
  simp only at hf
  intro name hm
  by_contra hlong
  cases hlongest : (w.tree.names l).find?
      fun name => pathLimit ≤ (⟨p.base, p.names ++ [name]⟩ : Path).text.utf8ByteSize with
  | none => exact List.find?_eq_none.1 hlongest name hm (by simpa using hlong)
  | some other =>
    rw [hlongest] at hf
    cases hf

/-- A listing gets into a directory below another: there are not too many levels above it, and its
path is short enough. -/
def Enters (p : Path) (levels : Nat) (r : List String) : Prop :=
  r.length ≤ levels ∧ (⟨p.base, p.names ++ r⟩ : Path).text.utf8ByteSize < pathLimit

/-- A way below a directory on which nothing is too long, nor nested too deep for a usual
listing. -/
def Near (p : Path) (r : List String) : Prop :=
  p.text.utf8ByteSize + Path.spelledSize r < pathLimit ∧ r.length ≤ usualLevels

theorem Near.enters {r : List String} (h : Near p r) : Enters p usualLevels r :=
  ⟨h.2, (Path.utf8ByteSize_text_append p.base p.names r).trans_lt h.1⟩

theorem near_nil (h : p.text.utf8ByteSize < pathLimit) : Near p [] :=
  ⟨by simpa using h, Nat.zero_le _⟩

theorem Near.mono {r s : List String} (h : Near p s) (hr : r <+: s) : Near p r := by
  obtain ⟨rest, rfl⟩ := hr
  obtain ⟨hsize, hlevels⟩ := h
  rw [Path.spelledSize_append] at hsize
  rw [List.length_append] at hlevels
  exact ⟨by omega, by omega⟩

theorem obstacle_eq_none_iff {r : List String} :
    obstacle p levels (r, .directory) = none ↔ Enters p levels r := by
  rw [obstacle, Enters]
  split
  · simp only [reduceCtorEq, false_iff, not_and]
    omega
  · split
    · simp only [reduceCtorEq, false_iff, not_and]
      omega
    · simp only [true_iff]
      omega

theorem filesBelow_run (h : w.Opens p l) (levels : Nat) : filesBelow p levels w =
    match (w.tree.below l).findSome? (obstacle p levels) with
    | some failure => .error failure w
    | none => .ok ((w.tree.below l).filterMap fun
      | (names, .file _) => some ⟨p.base, p.names ++ names⟩
      | (_, .directory) => none) w := by
  unfold filesBelow
  rw [bind_of_ok (isDirectory_of_opens h), Bool.not_true, if_neg Bool.false_ne_true,
    bind_of_ok (get_ok w), h.1.2]
  simp only
  cases (w.tree.below l).findSome? (obstacle p levels) <;> rfl

/-- The files below a directory can be listed if every directory there can be gone into. -/
theorem filesBelow_of_opens (h : w.Opens p l)
    (hin : ∀ r, w.tree.get? (l ++ r) = some .directory → Enters p levels r) :
    filesBelow p levels w = .ok ((w.tree.below l).filterMap fun
      | (names, .file _) => some ⟨p.base, p.names ++ names⟩
      | (_, .directory) => none) w := by
  have hnone : (w.tree.below l).findSome? (obstacle p levels) = none := by
    rw [List.findSome?_eq_none_iff]
    rintro ⟨r, _ | content⟩ hm
    · exact obstacle_eq_none_iff.2 (hin r (mem_below.1 hm).2)
    · rfl
  rw [filesBelow_run h, hnone]

theorem filesBelow_enters {r : List String} {files : List Path} (h : w.Opens p l)
    (hf : filesBelow p levels w = .ok files w') (hdir : w.tree.get? (l ++ r) = some .directory) :
    Enters p levels r := by
  by_cases hr : r = []
  · subst hr
    exact ⟨Nat.zero_le _, by simpa using h.1.short⟩
  rw [filesBelow_run h] at hf
  cases hfind : (w.tree.below l).findSome? (obstacle p levels) with
  | some failure =>
    rw [hfind] at hf
    cases hf
  | none =>
    exact obstacle_eq_none_iff.1 (List.findSome?_eq_none_iff.1 hfind _ (mem_below.2 ⟨hr, hdir⟩))

theorem filesBelow_of_not_opens {files : List Path} (hno : ∀ l, ¬ w.Opens p l)
    (hf : filesBelow p levels w = .ok files w') : w' = w ∧ files = [] := by
  obtain ⟨b, w₁, hd, hrest⟩ := bind_eq_ok_iff.1 hf
  obtain ⟨rfl, hopens⟩ := isDirectory_eq_ok hd
  cases b with
  | false =>
    obtain ⟨rfl, rfl⟩ := EStateM.Result.ok.inj hrest
    exact ⟨rfl, rfl⟩
  | true =>
    obtain ⟨l, hl⟩ := hopens.1 rfl
    exact absurd hl (hno l)

theorem filesBelow_of_nowhere (hno : ∀ l, ¬ w.Opens p l)
    (hshort : p.hasNul = true ∨ w.tree.locate w.place p ≠ .error .nameTooLong) :
    filesBelow p levels w = .ok [] w := by
  cases hd : isDirectory p w with
  | error e w₁ =>
    obtain ⟨-, hnul, hlong, -⟩ := status_eq_error_iff.1 (isDirectory_eq_error_iff.1 hd)
    rcases hshort with hn | hn
    · rw [hnul] at hn
      cases hn
    · exact absurd hlong hn
  | ok b w₁ =>
    obtain ⟨rfl, hopens⟩ := isDirectory_eq_ok hd
    cases b with
    | false =>
      rw [filesBelow, bind_of_ok hd]
      rfl
    | true =>
      obtain ⟨l, hl⟩ := hopens.1 rfl
      exact absurd hl (hno l)

/-- Files cannot be listed only if a directory is nested too deep or some path is too long. -/
theorem filesBelow_error {e : Failure} (hf : filesBelow p levels w = .error e w') : w' = w ∧
    ((e = .tooDeep ∧ ∃ l r, w.Opens p l ∧
      w.tree.get? (l ++ r) = some .directory ∧ levels < r.length) ∨
      ∃ q, e = .system (Refusal.nameTooLong.error q) []) := by
  cases hd : isDirectory p w with
  | error e₁ w₁ =>
    obtain ⟨rfl, -, -, rfl⟩ := status_eq_error_iff.1 (isDirectory_eq_error_iff.1 hd)
    rw [filesBelow, bind_of_error hd] at hf
    obtain ⟨rfl, rfl⟩ := EStateM.Result.error.inj hf
    exact ⟨rfl, .inr ⟨p, rfl⟩⟩
  | ok b w₁ =>
    obtain ⟨rfl, hopens⟩ := isDirectory_eq_ok hd
    cases b with
    | false =>
      rw [filesBelow, bind_of_ok hd] at hf
      cases hf
    | true =>
      obtain ⟨l, hl⟩ := hopens.1 rfl
      rw [filesBelow_run hl] at hf
      cases hfind : (w₁.tree.below l).findSome? (obstacle p levels) with
      | none =>
        rw [hfind] at hf
        cases hf
      | some failure =>
        rw [hfind] at hf
        obtain ⟨rfl, rfl⟩ := EStateM.Result.error.inj hf
        obtain ⟨⟨r, _ | content⟩, hm, hobstacle⟩ := List.exists_of_findSome?_eq_some hfind
        · refine ⟨rfl, ?_⟩
          rw [obstacle] at hobstacle
          split at hobstacle
          · obtain rfl := Option.some.inj hobstacle
            exact .inl ⟨rfl, l, r, hl, (mem_below.1 hm).2, ‹_›⟩
          · split at hobstacle
            · exact .inr ⟨_, (Option.some.inj hobstacle).symm⟩
            · cases hobstacle
        · cases hobstacle

theorem during_eq_ok {e : SystemError} {work : Work α} {a : α} (h : during e work w = .ok a w') :
    work w = .ok a w' := by
  unfold during at h
  cases hw : work w with
  | ok b w₁ =>
    rw [tryCatch_of_ok hw] at h
    exact h
  | error f w₁ =>
    rw [tryCatch_of_error hw] at h
    cases f <;> cases h

theorem during_of_ok {e : SystemError} {work : Work α} {a : α} (h : work w = .ok a w') :
    during e work w = .ok a w' :=
  tryCatch_of_ok h _

theorem tryMakeDirectory_run (hn : p.hasNul = false) : tryMakeDirectory p w =
    match w.tree.makeDirectory w.place p with
    | .ok t => .ok none { w with tree := t }
    | .error r => .ok (some r) w := by
  unfold tryMakeDirectory
  rw [if_neg (by simp [hn])]
  cases hm : w.tree.makeDirectory w.place p with
  | ok t =>
    simp only [bind_of_ok (get_ok w), hm]
    rfl
  | error r =>
    simp only [bind_of_ok (get_ok w), hm]
    rfl

/-- One directory is made at the place of the path, or nothing is done. -/
theorem tryMakeDirectory_eq_ok {r : Option Refusal} (h : tryMakeDirectory p w = .ok r w') :
    p.hasNul = false ∧
    match r with
    | none => ∃ l t, w.Reaches p l ∧ w.tree.makeDirectoryAt l = .ok t ∧ w' = { w with tree := t }
    | some r => w' = w ∧ w.tree.makeDirectory w.place p = .error r := by
  by_cases hn : p.hasNul
  · unfold tryMakeDirectory at h
    rw [if_pos hn] at h
    cases h
  · have hn' : p.hasNul = false := by simpa using hn
    rw [tryMakeDirectory_run hn'] at h
    cases hm : w.tree.makeDirectory w.place p with
    | ok t =>
      rw [hm] at h
      obtain ⟨rfl, rfl⟩ := EStateM.Result.ok.inj h
      unfold FileTree.makeDirectory at hm
      cases hl : w.tree.locate w.place p with
      | ok l =>
        rw [hl] at hm
        exact ⟨hn', l, t, ⟨hn', hl⟩, hm, rfl⟩
      | error r =>
        rw [hl] at hm
        cases hm
    | error r =>
      rw [hm] at h
      obtain ⟨rfl, rfl⟩ := EStateM.Result.ok.inj h
      exact ⟨hn', rfl, rfl⟩

theorem acceptExisting_eq_ok {r : Refusal} (h : acceptExisting existing r p w = .ok () w') :
    existing = true ∧ w' = w ∧ ∃ l, w.Opens p l := by
  unfold acceptExisting at h
  cases existing with
  | false => cases h
  | true =>
    rw [if_pos rfl] at h
    obtain ⟨b, w₁, hd, hb⟩ := bind_eq_ok_iff.1 h
    obtain ⟨rfl, hopens⟩ := isDirectory_eq_ok (during_eq_ok hd)
    cases b with
    | false => cases hb
    | true =>
      obtain ⟨-, rfl⟩ := EStateM.Result.ok.inj hb
      exact ⟨rfl, rfl, hopens.1 rfl⟩

theorem makeLast_eq_ok (h : makeLast existing p w = .ok () w') :
    (∃ l t, w.Reaches p l ∧ w.tree.makeDirectoryAt l = .ok t ∧ w' = { w with tree := t }) ∨
      existing = true ∧ w' = w ∧ ∃ l, w.Opens p l := by
  unfold makeLast at h
  obtain ⟨r, w₁, ht, hr⟩ := bind_eq_ok_iff.1 h
  obtain ⟨-, hmade⟩ := tryMakeDirectory_eq_ok ht
  cases r with
  | none =>
    obtain ⟨-, rfl⟩ := EStateM.Result.ok.inj hr
    exact .inl hmade
  | some r =>
    obtain ⟨rfl, -⟩ := hmade
    cases r with
    | missing => cases hr
    | «exists» | notDirectory | isDirectory | nameTooLong => exact .inr (acceptExisting_eq_ok hr)

theorem opens_of_makeDirectoryAt {t : FileTree} (hr : w.Reaches p l)
    (h : w.tree.makeDirectoryAt l = .ok t) : ({ w with tree := t } : Workspace).Opens p l :=
  ⟨hr.grows ⟨t, w.journal, rfl⟩ (grows_of_makeDirectoryAt h), by simp [get?_of_makeDirectoryAt h]⟩

/-- The places to which a path or a part of it leads. -/
def Way (w : Workspace) (p : Path) (l : Location) : Prop :=
  ∃ names, names <+: p.names ∧ w.Reaches ⟨p.base, names⟩ l

theorem Way.grows {made written : Location → Prop} (h : Way w p l) (hb : w.Beside w')
    (hg : Grows made written w.tree w'.tree) : Way w' p l := by
  obtain ⟨names, hp, hr⟩ := h
  exact ⟨names, hp, hr.grows hb hg⟩

theorem Way.fits (h : Way w p l) (hp : Fits w.place) : Fits l := by
  obtain ⟨names, -, hr⟩ := h
  exact hr.fits hp

theorem directory_of_opens {names : List String} (h : w.Opens p l) (hn : names <+: p.names) :
    w.tree.get? (placeOf w.place ⟨p.base, names⟩) = some .directory := by
  obtain ⟨base, all⟩ := p
  obtain ⟨rest, rfl⟩ := hn
  obtain ⟨⟨-, hloc⟩, hd⟩ := h
  unfold FileTree.locate at hloc
  split at hloc
  · cases hloc
  rw [walk_append] at hloc
  cases hw :
    w.tree.walk (if (⟨base, names ++ rest⟩ : Path).isAbsolute then [] else w.place) names with
  | error r =>
    rw [hw] at hloc
    cases hloc
  | ok m =>
    rw [hw] at hloc
    have hm : m = placeOf w.place ⟨base, names⟩ := walk_eq_follow hw
    by_cases hr : rest = []
    · subst hr
      rw [← hm, show m = l from Except.ok.inj hloc, hd]
    · rw [← hm]
      exact walk_directory hr hloc

/-- Beyond a directory the way goes straight on. -/
theorem Way.below {names : List String} {d : Location} (h : Way w' ⟨p.base, p.names ++ names⟩ l)
    (hd : w.Opens p d) (hup : ".." ∉ names) (hb : w.Beside w') (hn : w.tree.get? l = none) :
    ∃ ns, ns <+: names ∧ ns ≠ [] ∧ l = d ++ ns := by
  obtain ⟨ns, hns, hr⟩ := h
  have hl := hr.eq
  rw [hb.place] at hl
  rcases List.prefix_or_prefix_of_prefix hns (List.prefix_append p.names names) with hp | ⟨ms, rfl⟩
  · rw [hl, directory_of_opens hd hp] at hn
    cases hn
  · have hms : ms <+: names := by simpa using hns
    have hplace := placeOf_append (fun hm => hup (hms.mem hm)) w.place p
    rw [← hd.1.eq] at hplace
    refine ⟨ms, hms, ?_, hl.trans hplace⟩
    rintro rfl
    rw [hl, hplace, List.append_nil, hd.2] at hn
    cases hn

/-- A directory that may be there is there in the end, and only directories on the way to it
have been made. -/
theorem makeAll_eq_ok {base : Path.Base} {names : List String}
    (h : makeAll base true names w = .ok () w') :
    w.Beside w' ∧ (∃ l, w'.Opens ⟨base, names.reverse⟩ l) ∧
      Grows (Way w' ⟨base, names.reverse⟩) (fun _ => False) w.tree w'.tree := by
  have hmade {w : Workspace} {q : Path} {l : Location} {t : FileTree} (hr : w.Reaches q l)
      (ht : w.tree.makeDirectoryAt l = .ok t) :
      Grows (Way { w with tree := t } q) (fun _ => False) w.tree t := by
    refine (grows_of_makeDirectoryAt ht).mono (fun k hk _ => ?_) (fun _ hk _ => hk)
    obtain rfl := hk
    exact ⟨q.names, List.prefix_rfl, (opens_of_makeDirectoryAt hr ht).1⟩
  have hlast {w w' : Workspace} {q : Path} (h : makeLast true q w = .ok () w') :
      w.Beside w' ∧ (∃ l, w'.Opens q l) ∧ Grows (Way w' q) (fun _ => False) w.tree w'.tree := by
    rcases makeLast_eq_ok h with ⟨l, t, hr, ht, rfl⟩ | ⟨-, rfl, hopens⟩
    · exact ⟨⟨t, w.journal, rfl⟩, ⟨l, opens_of_makeDirectoryAt hr ht⟩, hmade hr ht⟩
    · exact ⟨.refl _, hopens, .refl _ _ _⟩
  induction names generalizing w' with
  | nil => exact hlast h
  | cons name above ih =>
    rw [makeAll] at h
    obtain ⟨r, w₁, ht, hr⟩ := bind_eq_ok_iff.1 h
    obtain ⟨-, hcase⟩ := tryMakeDirectory_eq_ok ht
    cases r with
    | none =>
      obtain ⟨-, rfl⟩ := EStateM.Result.ok.inj hr
      obtain ⟨l, t, hreach, hat, rfl⟩ := hcase
      exact ⟨⟨t, w.journal, rfl⟩, ⟨l, opens_of_makeDirectoryAt hreach hat⟩, hmade hreach hat⟩
    | some r =>
      obtain ⟨rfl, -⟩ := hcase
      cases r with
      | missing =>
        obtain ⟨u, w₂, hall, hl⟩ := bind_eq_ok_iff.1 (during_eq_ok hr)
        obtain ⟨hb, -, hg⟩ := ih hall
        obtain ⟨hb', hopens, hg'⟩ := hlast hl
        refine ⟨hb.trans hb', hopens, (hg.mono (fun l hway _ => ?_) (fun _ hk _ => hk)).trans hg'⟩
        obtain ⟨ns, hns, hreach⟩ := hway.grows hb' hg'
        exact ⟨ns, hns.trans (by simp), hreach⟩
      | «exists» | notDirectory | isDirectory | nameTooLong =>
        obtain ⟨-, rfl, hopens⟩ := acceptExisting_eq_ok hr
        exact ⟨.refl _, hopens, .refl _ _ _⟩

theorem ensureDirectory_eq_ok (h : ensureDirectory p w = .ok () w') :
    w.Beside w' ∧ (∃ l, w'.Opens p l) ∧ Grows (Way w' p) (fun _ => False) w.tree w'.tree := by
  simpa using makeAll_eq_ok h

/-- Beyond the directory that was made all is as it was. -/
theorem get?_beyond {ns r : List String} {d : Location} (hd : w.Opens p d)
    (hup : ".." ∉ ns) (hr : r ≠ []) (h : ensureDirectory ⟨p.base, p.names ++ ns⟩ w = .ok () w') :
    w'.tree.get? (d ++ ns ++ r) = w.tree.get? (d ++ ns ++ r) := by
  obtain ⟨hb, -, hg⟩ := ensureDirectory_eq_ok h
  rcases hg (d ++ ns ++ r) with he | ⟨hway, hnone, -⟩ | ⟨hno, -⟩
  · exact he
  · obtain ⟨ms, hms, -, he⟩ := hway.below hd hup hb hnone
    have hlen := hms.length_le
    have hpos := List.length_pos_iff.2 hr
    rw [List.append_assoc] at he
    rw [← List.append_cancel_left he, List.length_append] at hlen
    omega
  · exact hno.elim

/-- A new directory is made last, where nothing was. -/
theorem makeNewDirectory_eq_ok (h : makeNewDirectory p w = .ok () w') :
    ∃ w₁ l t, w.Beside w₁ ∧ Grows (Way w₁ p) (fun _ => False) w.tree w₁.tree ∧ w₁.Reaches p l ∧
      w₁.tree.makeDirectoryAt l = .ok t ∧ w' = { w₁ with tree := t } := by
  have hlast {w w' : Workspace} {q : Path} (h : makeLast false q w = .ok () w') :
      ∃ l t, w.Reaches q l ∧ w.tree.makeDirectoryAt l = .ok t ∧ w' = { w with tree := t } := by
    rcases makeLast_eq_ok h with h | ⟨h, -⟩
    · exact h
    · cases h
  obtain ⟨base, names⟩ := p
  unfold makeNewDirectory at h
  cases hn : names.reverse with
  | nil =>
    obtain rfl : names = [] := by simpa using hn
    obtain ⟨l, t, hr, ht, rfl⟩ := hlast h
    exact ⟨w, l, t, .refl w, .refl _ _ _, hr, ht, rfl⟩
  | cons name above =>
    obtain rfl : names = (name :: above).reverse := by rw [← hn, List.reverse_reverse]
    simp only [List.reverse_reverse] at h
    rw [makeAll] at h
    obtain ⟨r, w₁, ht, hr⟩ := bind_eq_ok_iff.1 h
    obtain ⟨-, hcase⟩ := tryMakeDirectory_eq_ok ht
    cases r with
    | none =>
      obtain ⟨-, rfl⟩ := EStateM.Result.ok.inj hr
      obtain ⟨l, t, hreach, hat, rfl⟩ := hcase
      exact ⟨w, l, t, .refl w, .refl _ _ _, hreach, hat, rfl⟩
    | some r =>
      obtain ⟨rfl, -⟩ := hcase
      cases r with
      | missing =>
        obtain ⟨u, w₂, hall, hl⟩ := bind_eq_ok_iff.1 (during_eq_ok hr)
        obtain ⟨hb, -, hg⟩ := makeAll_eq_ok hall
        obtain ⟨l, t, hreach, hat, rfl⟩ := hlast hl
        refine ⟨w₂, l, t, hb, hg.mono (fun l hway _ => ?_) (fun _ hk _ => hk), hreach, hat, rfl⟩
        obtain ⟨ns, hns, hreach⟩ := hway
        exact ⟨ns, hns.trans (by simp), hreach⟩
      | «exists» | notDirectory | isDirectory | nameTooLong =>
        obtain ⟨he, -⟩ := acceptExisting_eq_ok hr
        cases he

theorem tryMakeDirectory_of_error {r : Refusal} (hn : p.hasNul = false)
    (h : w.tree.makeDirectory w.place p = .error r) : tryMakeDirectory p w = .ok (some r) w := by
  rw [tryMakeDirectory_run hn, h]

theorem tryMakeDirectory_of_reaches (hr : w.Reaches p l) (hl : w.tree.get? l = none)
    (hd : w.tree.get? l.dropLast = some .directory) : ∃ t,
      tryMakeDirectory p w = .ok none { w with tree := t } ∧ w.tree.makeDirectoryAt l = .ok t := by
  obtain ⟨t, ht⟩ : ∃ t, w.tree.makeDirectoryAt l = .ok t := by
    unfold FileTree.makeDirectoryAt
    rw [dif_pos hl, dif_pos hd]
    exact ⟨_, rfl⟩
  have hmake : w.tree.makeDirectory w.place p = .ok t := by
    rw [FileTree.makeDirectory, hr.2]
    exact ht
  refine ⟨t, ?_, ht⟩
  rw [tryMakeDirectory_run hr.1, hmake]

theorem tryMakeDirectory_of_opens (h : w.Opens p l) :
    tryMakeDirectory p w = .ok (some .exists) w := by
  refine tryMakeDirectory_of_error h.1.1 ?_
  rw [FileTree.makeDirectory, h.1.2]
  change w.tree.makeDirectoryAt l = _
  rw [FileTree.makeDirectoryAt, dif_neg (by simp [h.2])]

theorem acceptExisting_of_opens (h : w.Opens p l) (r : Refusal) :
    acceptExisting true r p w = .ok () w := by
  unfold acceptExisting
  rw [if_pos rfl, bind_of_ok (during_of_ok (isDirectory_of_opens h))]
  rfl

theorem makeLast_of_opens (h : w.Opens p l) : makeLast true p w = .ok () w := by
  unfold makeLast
  rw [bind_of_ok (tryMakeDirectory_of_opens h)]
  exact acceptExisting_of_opens h _

theorem ensureDirectory_of_opens (h : w.Opens p l) : ensureDirectory p w = .ok () w := by
  unfold ensureDirectory
  obtain ⟨base, names⟩ := p
  cases hn : names.reverse with
  | nil =>
    obtain rfl : names = [] := by simpa using hn
    exact makeLast_of_opens h
  | cons name above =>
    obtain rfl : names = (name :: above).reverse := by rw [← hn, List.reverse_reverse]
    rw [makeAll, bind_of_ok (tryMakeDirectory_of_opens h)]
    exact acceptExisting_of_opens h _

theorem makeAll_of_reaches {base : Path.Base} {name : String} {above : List String}
    (hr : w.Reaches ⟨base, (name :: above).reverse⟩ l)
    (hd : w.tree.get? l.dropLast = some .directory)
    (hl : w.tree.get? l = none ∨ existing = true ∧ w.tree.get? l = some .directory) :
    ∃ w', makeAll base existing (name :: above) w = .ok () w' := by
  rw [makeAll]
  rcases hl with hnone | ⟨rfl, hdir⟩
  · obtain ⟨t, ht, -⟩ := tryMakeDirectory_of_reaches hr hnone hd
    exact ⟨_, bind_of_ok ht _⟩
  · refine ⟨w, ?_⟩
    rw [bind_of_ok (tryMakeDirectory_of_opens ⟨hr, hdir⟩)]
    exact acceptExisting_of_opens ⟨hr, hdir⟩ _

theorem makeAll_of_missing {base : Path.Base} {name : String} {above : List String} {w₁ : Workspace}
    (hn : (⟨base, (name :: above).reverse⟩ : Path).hasNul = false)
    (hmissing : w.tree.makeDirectory w.place ⟨base, (name :: above).reverse⟩ = .error .missing)
    (habove : makeAll base true above w = .ok () w₁)
    (hr : w₁.Reaches ⟨base, (name :: above).reverse⟩ l) (hl : w₁.tree.get? l = none)
    (hd : w₁.tree.get? l.dropLast = some .directory) :
    ∃ w', makeAll base existing (name :: above) w = .ok () w' := by
  obtain ⟨t, ht, -⟩ := tryMakeDirectory_of_reaches hr hl hd
  refine ⟨{ w₁ with tree := t }, ?_⟩
  rw [makeAll, bind_of_ok (tryMakeDirectory_of_error hn hmissing)]
  refine during_of_ok ?_
  rw [bind_of_ok habove]
  exact bind_of_ok ht _

/-- A directory made below another leaves what is further down as it is. -/
theorem fresh_of_ensureDirectory {ns : List String} {d : Location} (name : String)
    (hd : w.Opens p d) (hup : ".." ∉ ns) (hne : w.tree.get? (d ++ ns) ≠ some .directory)
    (h : ensureDirectory ⟨p.base, p.names ++ ns⟩ w = .ok () w') :
    w'.tree.get? (d ++ (ns ++ [name])) = none ∧ w'.tree.get? (d ++ ns) = some .directory := by
  obtain ⟨hb, ⟨l, hopens⟩, hg⟩ := ensureDirectory_eq_ok h
  have hl := hopens.1.eq.trans (placeOf_append hup w'.place p)
  rw [hb.place, ← hd.1.eq] at hl
  have hbefore : w.tree.get? (d ++ (ns ++ [name])) = none := by
    rw [← List.append_assoc]
    exact get?_append_of_ne (by simp) hne
  have hway : ¬ Way w' ⟨p.base, p.names ++ ns⟩ (d ++ (ns ++ [name])) := by
    intro hway
    obtain ⟨ms, hms, -, he⟩ := hway.below hd hup hb hbefore
    have hlen := congrArg List.length (List.append_cancel_left he)
    have := hms.length_le
    simp only [List.length_append, List.length_singleton] at hlen
    omega
  exact ⟨by rw [hg.eq_of_not hway id, hbefore], hl ▸ hopens.2⟩

/-- Below a directory a directory can be made once those above it can. -/
theorem makeAll_below {ns : List String} {name : String}
    {d : Location} (hd : w.Opens p d) (hfit : Fits (ns ++ [name]))
    (hsize : p.text.utf8ByteSize + Path.spelledSize (ns ++ [name]) < pathLimit)
    (hfree : ∀ ms, ms <+: ns → ∀ content, w.tree.get? (d ++ ms) ≠ some (.file content))
    (hlast : w.tree.get? (d ++ (ns ++ [name])) = none ∨
      existing = true ∧ w.tree.get? (d ++ (ns ++ [name])) = some .directory)
    (habove : ∃ w', ensureDirectory ⟨p.base, p.names ++ ns⟩ w = .ok () w') :
    ∃ w', makeAll p.base existing (p.names ++ (ns ++ [name])).reverse w = .ok () w' := by
  have hpath : (name :: (p.names ++ ns).reverse).reverse = p.names ++ (ns ++ [name]) := by simp
  have hdrop : (d ++ (ns ++ [name])).dropLast = d ++ ns := by
    rw [← List.append_assoc, List.dropLast_concat]
  rw [← hpath, List.reverse_reverse]
  by_cases hparent : w.tree.get? (d ++ ns) = some .directory
  · have hreach := hd.reaches hfit (fun _ => by simpa using hparent) hsize
    rw [← hpath] at hreach
    exact makeAll_of_reaches hreach (hdrop ▸ hparent) hlast
  · have hnone : w.tree.get? (d ++ ns) = none := by
      cases hg : w.tree.get? (d ++ ns) with
      | none => rfl
      | some node =>
        cases node with
        | directory => exact absurd hg hparent
        | file content => exact absurd hg (hfree ns List.prefix_rfl content)
    have hwalk :=
      walk_of_missing name (fun k hk => (hfit.of_append_left k hk).2.1) hfit.of_append_left.not_mem
      hfree hnone
    obtain ⟨w₁, hw₁⟩ := habove
    obtain ⟨hfresh, hdir⟩ :=
      fresh_of_ensureDirectory name hd hfit.of_append_left.not_mem hparent hw₁
    obtain ⟨hb, -, hg⟩ := ensureDirectory_eq_ok hw₁
    have hreach := (hd.grows hb hg).reaches hfit (fun _ => by simpa using hdir) hsize
    rw [← hpath] at hreach
    refine makeAll_of_missing (hpath ▸ hd.hasNul hfit) ?_ hw₁ hreach hfresh (hdrop ▸ hdir)
    rw [hpath, FileTree.makeDirectory, hd.locate hsize, hwalk]
    rfl

theorem ensureDirectory_below {ns : List String} {d : Location} (hd : w.Opens p d) (hfit : Fits ns)
    (hsize : p.text.utf8ByteSize + Path.spelledSize ns < pathLimit)
    (hfree : ∀ ms, ms <+: ns → ∀ content, w.tree.get? (d ++ ms) ≠ some (.file content)) :
    ∃ w', ensureDirectory ⟨p.base, p.names ++ ns⟩ w = .ok () w' := by
  induction ns using List.reverseRecOn with
  | nil =>
    rw [List.append_nil]
    exact ⟨w, ensureDirectory_of_opens hd⟩
  | append_singleton ns name ih =>
    have hsize' : p.text.utf8ByteSize + Path.spelledSize ns < pathLimit := by
      rw [Path.spelledSize_append] at hsize
      omega
    have hfree' : ∀ ms, ms <+: ns → ∀ content, w.tree.get? (d ++ ms) ≠ some (.file content) :=
      fun ms hms => hfree ms (hms.trans (List.prefix_append _ _))
    have hlast : w.tree.get? (d ++ (ns ++ [name])) = none ∨
        true = true ∧ w.tree.get? (d ++ (ns ++ [name])) = some .directory := by
      cases hg : w.tree.get? (d ++ (ns ++ [name])) with
      | none => exact .inl rfl
      | some node =>
        cases node with
        | directory => exact .inr ⟨rfl, rfl⟩
        | file content => exact absurd hg (hfree _ List.prefix_rfl content)
    exact makeAll_below hd hfit hsize hfree' hlast (ih hfit.of_append_left hsize' hfree')

theorem makeNewDirectory_below {ns : List String} {name : String} {d : Location} (hd : w.Opens p d)
    (hfit : Fits (ns ++ [name]))
    (hsize : p.text.utf8ByteSize + Path.spelledSize (ns ++ [name]) < pathLimit)
    (hfree : ∀ ms, ms <+: ns → ∀ content, w.tree.get? (d ++ ms) ≠ some (.file content))
    (hnone : w.tree.get? (d ++ (ns ++ [name])) = none) :
    ∃ w', makeNewDirectory ⟨p.base, p.names ++ (ns ++ [name])⟩ w = .ok () w' := by
  have hsize' : p.text.utf8ByteSize + Path.spelledSize ns < pathLimit := by
    rw [Path.spelledSize_append] at hsize
    omega
  exact makeAll_below hd hfit hsize hfree (.inl hnone)
    (ensureDirectory_below hd hfit.of_append_left hsize' hfree)

/-- A path that leads on from a directory to where nothing is leads to nothing, wherever it ends. -/
theorem fileExists_of_free {ns : List String} {name : String} {d : Location} (hd : w.Opens p d)
    (hfit : Fits (ns ++ [name]))
    (hsize : p.text.utf8ByteSize + Path.spelledSize (ns ++ [name]) < pathLimit)
    (hfree : ∀ ms, ms <+: ns → ∀ content, w.tree.get? (d ++ ms) ≠ some (.file content))
    (hnone : w.tree.get? (d ++ (ns ++ [name])) = none) :
    fileExists ⟨p.base, p.names ++ (ns ++ [name])⟩ w = .ok false w := by
  have hstatus : status ⟨p.base, p.names ++ (ns ++ [name])⟩ w = .ok none w := by
    have hlocate := hd.locate hsize
    unfold status
    rw [if_neg (by simp [hd.hasNul hfit])]
    refine look_of_ok (hd.hasNul hfit) ?_
    rw [FileTree.status, hlocate]
    by_cases hparent : w.tree.get? (d ++ ns) = some .directory
    · rw [walk_of_directory (fun k hk => (hfit k hk).2.1) hfit.not_mem
        (fun _ => by simpa using hparent)]
      simp only [hnone]
    · have hgone : w.tree.get? (d ++ ns) = none := by
        cases hg : w.tree.get? (d ++ ns) with
        | none => rfl
        | some node =>
          cases node with
          | directory => exact absurd hg hparent
          | file content => exact absurd hg (hfree ns List.prefix_rfl content)
      rw [walk_of_missing name (fun k hk => (hfit.of_append_left k hk).2.1)
        hfit.of_append_left.not_mem hfree hgone]
  unfold fileExists
  rw [bind_of_ok hstatus]
  rfl

end ApiScaffold.Work
