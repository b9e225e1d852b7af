import ApiScaffold.Proofs.Placeholder
import ApiScaffold.Proofs.Text.Replacement

/-! What replacing a placeholder comes to. It ends well if and only if no path to be followed is too
long, and no directory nested too deep. Then each text below the directory has the value in the
place of each occurrence of the token, nothing else has changed, and the files rewritten are given
in order. Where it fails just the texts before some file have been rewritten. -/
namespace ApiScaffold.Placeholder
open FileTree
variable {w w' : Workspace} {root : Path} {token value : String} {levels : Nat}
  {part : List String → Prop}

/-- A directory has a file below it whose text has the token. -/
def Holds (token : String) (root : Path) (w : Workspace) (r : List String) (s : String) : Prop :=
  w.Opens root (placeOf w.place root) ∧
  w.tree.get? (placeOf w.place root ++ r) = some (.file (Text.encode s)) ∧
    token.toList <:+: s.toList

/-- In some of the texts with the token it has given way to the value, and all else is as it was. -/
structure ReplacedIn (token value : String) (root : Path) (part : List String → Prop)
    (w w' : Workspace) : Prop where
  beside : w.Beside w'
  replaced : ∀ r s, Holds token root w r s → part r → ∃ t : String,
    Text.Replaced token.toList value.toList s.toList t.toList ∧
      w'.tree.get? (placeOf w.place root ++ r) = some (.file (Text.encode t))
  kept : ∀ l, (∀ r s, Holds token root w r s → part r → l ≠ placeOf w.place root ++ r) →
    w'.tree.get? l = w.tree.get? l

/-- The files whose texts have the token, in order and each once. -/
structure Listed (token : String) (root : Path) (w : Workspace) (files : List Path) : Prop where
  mem_iff : ∀ p, p ∈ files ↔ ∃ r s, Holds token root w r s ∧ p = ⟨root.base, root.names ++ r⟩
  ordered : files.Pairwise fun p q => p.names < q.names

/-- No path to be followed is too long: neither that of the directory nor one that leads on to what
is there. And there is room for all levels of directories below. -/
structure Followable (root : Path) (levels : Nat) (w : Workspace) : Prop where
  start : root.hasNul = true ∨ w.tree.locate w.place root ≠ .error .nameTooLong
  below : ∀ r n, w.Opens root (placeOf w.place root) →
    w.tree.get? (placeOf w.place root ++ r) = some n →
    (⟨root.base, root.names ++ r⟩ : Path).text.utf8ByteSize < pathLimit
  shallow : ∀ r, w.Opens root (placeOf w.place root) →
    w.tree.get? (placeOf w.place root ++ r) = some .directory → r.length ≤ levels

/-- What makes replacing fail, and at which file. Before the first it fails if the files
cannot be listed. -/
inductive Stops (root : Path) (levels : Nat) (w : Workspace) : Failure → List String → Prop where
  | tooDeep {r : List String} (hopens : w.Opens root (placeOf w.place root))
      (hdir : w.tree.get? (placeOf w.place root ++ r) = some .directory) (hr : levels < r.length) :
      Stops root levels w .tooDeep []
  | tooLong (p : Path) : Stops root levels w (.system (Refusal.nameTooLong.error p) []) []
  | fileTooLong (r : List String) :
      Stops root levels w (.system (Refusal.nameTooLong.error ⟨root.base, root.names ++ r⟩) []) r

theorem Holds.ne_nil {r : List String} {s : String} (h : Holds token root w r s) : r ≠ [] := by
  obtain ⟨hopens, hfile, -⟩ := h
  rintro rfl
  rw [List.append_nil, hopens.2] at hfile
  cases hfile

theorem ReplacedIn.refl (token value : String) (root : Path) (w : Workspace)
    (hpart : ∀ r, ¬ part r) : ReplacedIn token value root part w w where
  beside := .refl w
  replaced r _ _ hr := absurd hr (hpart r)
  kept _ _ := rfl

/-- Notes that are made do not count. -/
theorem ReplacedIn.of_tree_eq {w'' : Workspace} (h : ReplacedIn token value root part w w')
    (hb : w'.Beside w'') (htree : w''.tree = w'.tree) : ReplacedIn token value root part w w'' where
  beside := h.beside.trans hb
  replaced r s hr hp := by
    rw [htree]
    exact h.replaced r s hr hp
  kept l hl := by
    rw [htree]
    exact h.kept l hl

theorem grows_of_stamped {d : Location} {ways : List (List String)}
    (hin : ∀ r ∈ ways, w'.tree.get? (d ++ r) = (w.tree.get? (d ++ r)).map (stampedNode token value))
    (hout : ∀ k, (∀ r ∈ ways, k ≠ d ++ r) → w'.tree.get? k = w.tree.get? k)
    (hfiles : ∀ r ∈ ways, ∃ content, w.tree.get? (d ++ r) = some (.file content)) :
    Grows (fun _ => False) (fun k => ∃ r ∈ ways, k = d ++ r) w.tree w'.tree := by
  intro k
  by_cases hk : ∃ r ∈ ways, k = d ++ r
  · obtain ⟨r, hr, rfl⟩ := hk
    obtain ⟨content, hfile⟩ := hfiles r hr
    refine .inr (.inr ⟨⟨r, hr, rfl⟩, by simp [hfile], stamped token value content, ?_⟩)
    rw [hin r hr, hfile]
    rfl
  · exact .inl (hout k fun r hr he => hk ⟨r, hr, he⟩)

/-- The token has been replaced where some files have been treated and no others. -/
theorem replacedIn_of_stamped {ways : List (List String)} (htoken : token ≠ "") (hb : w.Beside w')
    (hin : ∀ r ∈ ways, w'.tree.get? (placeOf w.place root ++ r) =
      (w.tree.get? (placeOf w.place root ++ r)).map (stampedNode token value))
    (hout : ∀ k, (∀ r ∈ ways, k ≠ placeOf w.place root ++ r) → w'.tree.get? k = w.tree.get? k)
    (hways : ∀ r ∈ ways, part r ∧ w.Opens root (placeOf w.place root) ∧
      ∃ content, w.tree.get? (placeOf w.place root ++ r) = some (.file content))
    (hpart : ∀ r s, Holds token root w r s → part r → r ∈ ways) :
    ReplacedIn token value root part w w' := by
  have hold : token.toList ≠ [] := by simpa using htoken
  refine ⟨hb, fun r s hs hr => ?_, fun l hl => ?_⟩
  · have hget := hin r (hpart r s hs hr)
    rw [hs.2.1] at hget
    refine ⟨String.ofList (Text.replace token.toList value.toList s.toList), ?_, ?_⟩
    · rw [Text.replaced_iff hold, String.toList_ofList]
    · rw [hget, ← stamped_encode]
      rfl
  · by_cases hm : ∃ r ∈ ways, l = placeOf w.place root ++ r
    · obtain ⟨r, hr, rfl⟩ := hm
      obtain ⟨hp, hopens, content, hfile⟩ := hways r hr
      have hno : ¬ OccursIn token content := by
        rintro ⟨s, rfl, hs⟩
        exact hl r s ⟨hopens, hfile, hs⟩ hp rfl
      rw [hin r hr, hfile]
      exact congrArg (fun c => some (Node.file c)) (stamped_of_not_occursIn value hno)
    · exact hout l fun r hr he => hm ⟨r, hr, he⟩

/-- Replacing in one file after the other that ends well has reached each text with the token, and
tells of just these files. -/
theorem replacedIn_of_filterAuxM {ways : List (List String)} {hits : List Path} (hs : w.Sound)
    (htoken : token ≠ "") (hopens : w.Opens root (placeOf w.place root))
    (hordered : ways.Pairwise (· < ·))
    (hways : ∀ r, r ∈ ways ↔ r ≠ [] ∧ ∃ content,
      w.tree.get? (placeOf w.place root ++ r) = some (.file content))
    (h : (ways.map fun r => (⟨root.base, root.names ++ r⟩ : Path)).filterAuxM
      (replaceIn token value) [] w = .ok hits w') :
    ReplacedIn token value root (fun _ => True) w w' ∧ Listed token root w hits.reverse := by
  have hup : ∀ r ∈ ways, ".." ∉ r := by
    intro r hr
    obtain ⟨-, content, hg⟩ := (hways r).1 hr
    exact (hs.1 _ _ hg).of_append_right.not_mem
  obtain ⟨hb, hin, hout, hit, hsub, hlist, hhit⟩ :=
    filterAuxM_replaceIn_eq_ok htoken hopens hup (nodup_of_pairwise_lt hordered) h
  have hmem : ∀ r s, Holds token root w r s → r ∈ ways :=
    fun r s hr => (hways r).2 ⟨hr.ne_nil, _, hr.2.1⟩
  have hhit' (r : List String) : r ∈ hit ↔ ∃ s, Holds token root w r s := by
    rw [hhit]
    constructor
    · rintro ⟨-, content, hg, s, rfl, ho⟩
      exact ⟨s, hopens, hg, ho⟩
    · rintro ⟨s, hr⟩
      exact ⟨hmem r s hr, _, hr.2.1, s, rfl, hr.2.2⟩
  constructor
  · apply replacedIn_of_stamped htoken hb hin hout
    · exact fun r hr => ⟨trivial, hopens, ((hways r).1 hr).2⟩
    · exact fun r s hr _ => hmem r s hr
  · rw [hlist, List.reverse_nil, List.nil_append]
    constructor
    · intro p
      simp only [List.mem_map, hhit']
      exact ⟨fun ⟨r, ⟨s, hr⟩, he⟩ => ⟨r, s, hr, he.symm⟩,
        fun ⟨r, s, hr, he⟩ => ⟨r, ⟨s, hr⟩, he.symm⟩⟩
    · rw [List.pairwise_map]
      exact (hordered.sublist hsub).imp fun hlt => (append_lt_append_iff _ _ _).2 hlt

theorem replacedIn_of_replaceBelow {rewritten : List Path} (hs : w.Sound)
    (h : replaceBelow root token value levels w = .ok rewritten w') :
    ReplacedIn token value root (fun _ => True) w w' ∧ Listed token root w rewritten := by
  obtain ⟨htoken, paths, w₁, w₂, hfiles, haux, hb, htree⟩ := replaceBelow_steps h
  by_cases hopens : w.Opens root (placeOf w.place root)
  · obtain ⟨rfl, ways, hordered, rfl, hways⟩ := filesBelow_eq_ok hopens hfiles
    obtain ⟨hreplaced, hlisted⟩ := replacedIn_of_filterAuxM hs htoken hopens hordered hways haux
    exact ⟨hreplaced.of_tree_eq hb htree, by simpa using hlisted⟩
  · obtain ⟨rfl, rfl⟩ := Work.filesBelow_of_not_opens (Workspace.not_opens hopens) hfiles
    obtain ⟨hr, rfl⟩ := EStateM.Result.ok.inj haux
    obtain rfl : rewritten = [] := by simpa using hr.symm
    have hnone : ∀ r s, ¬ Holds token root w₁ r s := fun r s hr => hopens hr.1
    constructor
    · refine ReplacedIn.of_tree_eq ⟨.refl _,
        fun r s hr => absurd hr (hnone r s), fun _ _ => rfl⟩ hb htree
    · exact ⟨fun p => by simp [hnone], .nil⟩

/-- Replacing in one file after the other fails at a file whose path is too long, when those
before it are done. -/
theorem replacedIn_of_filterAuxM_error {ways : List (List String)}
    {found : List Path} {e : Failure} (hs : w.Sound) (htoken : token ≠ "")
    (hopens : w.Opens root (placeOf w.place root)) (hordered : ways.Pairwise (· < ·))
    (hways : ∀ r, r ∈ ways ↔ r ≠ [] ∧ ∃ content,
      w.tree.get? (placeOf w.place root ++ r) = some (.file content))
    (h : (ways.map fun r => (⟨root.base, root.names ++ r⟩ : Path)).filterAuxM
      (replaceIn token value) found w = .error e w') :
    ∃ r ∈ ways, e = .system (Refusal.nameTooLong.error ⟨root.base, root.names ++ r⟩) [] ∧
      ReplacedIn token value root (· < r) w w' := by
  have hfit : ∀ r ∈ ways, Fits r := by
    intro r hr
    obtain ⟨-, content, hg⟩ := (hways r).1 hr
    exact (hs.1 _ _ hg).of_append_right
  obtain ⟨before, p, behind, found', w₁, hsplit, haux, hp⟩ := Work.filterAuxM_eq_error h
  obtain ⟨earlier, rest, rfl, rfl, hrest⟩ := List.map_eq_append_iff.1 hsplit
  obtain ⟨r, later, rfl, rfl, rfl⟩ := List.map_eq_cons_iff.1 hrest
  have hr : r ∈ earlier ++ r :: later := by simp
  obtain ⟨hsorted, hrsorted, hcross⟩ := List.pairwise_append.1 hordered
  obtain ⟨hb, hin, hout, -⟩ := filterAuxM_replaceIn_eq_ok htoken hopens
    (fun s hs => (hfit s (List.mem_append_left _ hs)).not_mem) (nodup_of_pairwise_lt hsorted) haux
  have hlast : r ∉ earlier := fun hm => List.lt_irrefl r (hcross r hm r List.mem_cons_self)
  obtain ⟨hne, content, hg⟩ := (hways r).1 hr
  have hkept : w₁.tree.get? (placeOf w.place root ++ r) = w.tree.get? (placeOf w.place root ++ r) :=
    hout _ fun s hs he => hlast (List.append_cancel_left he ▸ hs)
  have hopens₁ : w₁.Opens root (placeOf w.place root) := by
    apply hopens.grows hb
    exact grows_of_stamped hin hout fun s hs => ((hways s).1 (List.mem_append_left _ hs)).2
  obtain ⟨rfl, he⟩ := replaceIn_error hopens₁ (hfit r hr) (hkept.trans hg) hp
  refine ⟨r, hr, he,
    replacedIn_of_stamped htoken hb hin hout (fun s hs => ?_) (fun s t hst hlt => ?_)⟩
  · refine ⟨hcross s hs r List.mem_cons_self, hopens, ?_⟩
    exact ((hways s).1 (List.mem_append_left _ hs)).2
  · have hmem : s ∈ earlier ++ r :: later := (hways s).2 ⟨hst.ne_nil, _, hst.2.1⟩
    rcases List.mem_append.1 hmem with hm | hm
    · exact hm
    · rcases List.mem_cons.1 hm with rfl | hm
      · exact absurd hlt (List.lt_irrefl s)
      · exact absurd (List.lt_trans hlt (List.rel_of_pairwise_cons hrsorted hm)) (List.lt_irrefl s)

/-- Replacing that fails has rewritten the texts before the file at which it stops, and no
others. -/
theorem replacedIn_of_error {e : Failure} (hs : w.Sound) (htoken : token ≠ "")
    (h : replaceBelow root token value levels w = .error e w') :
    ∃ bound, Stops root levels w e bound ∧ ReplacedIn token value root (· < bound) w w' := by
  rcases replaceBelow_error_steps htoken h with hfiles | ⟨paths, w₁, hfiles, haux⟩
  · obtain ⟨rfl, hwhy⟩ := Work.filesBelow_error hfiles
    refine ⟨[], ?_, ReplacedIn.refl token value root w' fun r => List.not_lt_nil r⟩
    rcases hwhy with ⟨rfl, l, r, hopens, hdir, hr⟩ | ⟨q, rfl⟩
    · obtain rfl := hopens.1.eq
      exact .tooDeep hopens hdir hr
    · exact .tooLong q
  · by_cases hopens : w.Opens root (placeOf w.place root)
    · obtain ⟨rfl, ways, hordered, rfl, hways⟩ := filesBelow_eq_ok hopens hfiles
      obtain ⟨r, -, rfl, hreplaced⟩ :=
        replacedIn_of_filterAuxM_error hs htoken hopens hordered hways haux
      exact ⟨r, .fileTooLong r, hreplaced⟩
    · obtain ⟨rfl, rfl⟩ := Work.filesBelow_of_not_opens (Workspace.not_opens hopens) hfiles
      cases haux

theorem short_of_filterAuxM {paths found hits : List Path} {p : Path} (htoken : token ≠ "")
    (h : paths.filterAuxM (replaceIn token value) found w = .ok hits w') (hp : p ∈ paths) :
    p.text.utf8ByteSize < pathLimit := by
  have hreached : ∀ p w b w', replaceIn token value p w = .ok b w' →
      p.text.utf8ByteSize < pathLimit := by
    intro p w b w' h
    obtain ⟨l, -, hreach, -⟩ := replaceIn_eq_ok htoken h
    exact hreach.short
  exact Work.filterAuxM_forall hreached h p hp

theorem followable_of_replaceBelow {rewritten : List Path}
    (h : replaceBelow root token value levels w = .ok rewritten w') : Followable root levels w := by
  obtain ⟨htoken, paths, w₁, w₂, hfiles, haux, -⟩ := replaceBelow_steps h
  constructor
  · by_contra hlong
    simp only [not_or, not_not, Bool.not_eq_true] at hlong
    have hlook : Work.isDirectory root w = .error (.system (Refusal.nameTooLong.error root) []) w :=
      Work.isDirectory_eq_error_iff.2 (Work.status_eq_error_iff.2 ⟨rfl, hlong.1, hlong.2, rfl⟩)
    rw [Work.filesBelow, Work.bind_of_error hlook] at hfiles
    cases hfiles
  · intro r n hopens hget
    cases n with
    | directory => exact (Work.filesBelow_enters hopens hfiles hget).2
    | file content =>
      obtain ⟨rfl, ways, -, rfl, hways⟩ := filesBelow_eq_ok hopens hfiles
      have hne : r ≠ [] := by
        rintro rfl
        rw [List.append_nil, hopens.2] at hget
        cases hget
      exact short_of_filterAuxM htoken haux
        (List.mem_map.2 ⟨r, (hways r).2 ⟨hne, content, hget⟩, rfl⟩)
  · exact fun r hopens hget => (Work.filesBelow_enters hopens hfiles hget).1

theorem replaceBelow_of_followable (hs : w.Sound) (htoken : token ≠ "") (value : String)
    (hfollow : Followable root levels w) :
    ∃ rewritten w', replaceBelow root token value levels w = .ok rewritten w' := by
  by_cases hopens : w.Opens root (placeOf w.place root)
  · refine replaceBelow_of_enters htoken value hs hopens (fun r hget => ?_) fun r n =>
      hfollow.below r n hopens
    exact ⟨hfollow.shallow r hopens hget, hfollow.below r _ hopens hget⟩
  · have hfiles : Work.filesBelow root levels w = .ok [] w :=
      Work.filesBelow_of_nowhere (Workspace.not_opens hopens) hfollow.start
    unfold replaceBelow
    rw [if_neg htoken]
    exact Work.bind_run hfiles ⟨_, _, rfl⟩

/-- Replacing a token with a value below a directory, however it ends and however many levels of
directories there is room for. -/
theorem replaceBelow_outcome (hs : w.Sound) (htoken : token ≠ "") :
    ((∃ rewritten w', replaceBelow root token value levels w = .ok rewritten w') ↔
      Followable root levels w) ∧
      (∀ rewritten w', replaceBelow root token value levels w = .ok rewritten w' →
        ReplacedIn token value root (fun _ => True) w w' ∧ Listed token root w rewritten) ∧
      ∀ e w', replaceBelow root token value levels w = .error e w' →
        ∃ bound, Stops root levels w e bound ∧ ReplacedIn token value root (· < bound) w w' :=
  ⟨⟨fun ⟨_, _, h⟩ => followable_of_replaceBelow h, replaceBelow_of_followable hs htoken value⟩,
    fun _ _ h => replacedIn_of_replaceBelow hs h, fun _ _ h => replacedIn_of_error hs htoken h⟩

/-- A text as it comes to stand in an empty workspace. -/
theorem exists_lone_text (s : String) : ∃ w : Workspace, w.Sound ∧ w.Opens ⟨.here, []⟩ [] ∧
    (∀ levels, Followable ⟨.here, []⟩ levels w) ∧
    w.tree.get? ["notes.txt"] = some (.file (Text.encode s)) := by
  obtain ⟨w, hs, hplace, -, hget⟩ := @Workspace.exists_lone_file "notes.txt" (by decide) s
  have hopens : w.Opens ⟨.here, []⟩ [] := Workspace.opens_up (n := 0) hplace (by decide)
  refine ⟨w, hs, hopens,
    fun levels => ⟨.inr (by rw [hopens.1.2]; nofun), fun r n _ hr => ?_, fun r _ hr => ?_⟩,
    (hget _ _).2 (.inr ⟨rfl, rfl⟩)⟩
  · rw [← hopens.1.eq] at hr
    rcases (hget r n).1 hr with ⟨rfl, -⟩ | ⟨rfl, -⟩ <;> decide
  · rw [← hopens.1.eq] at hr
    rcases (hget r _).1 hr with ⟨rfl, -⟩ | ⟨-, hfile⟩
    · exact Nat.zero_le _
    · cases hfile

/-- In a lone file the token gives way wherever it is. -/
theorem replaceBelow_lone_file : ∃ w rewritten w', w.Sound ∧
    w.tree.get? ["notes.txt"] = some (.file (Text.encode "on __NAME__ and\r\n__NAME____")) ∧
    replaceBelow ⟨.here, []⟩ "__NAME__" "shop" Work.usualLevels w = .ok rewritten w' ∧
    ⟨.here, ["notes.txt"]⟩ ∈ rewritten ∧
    w'.tree.get? ["notes.txt"] = some (.file (Text.encode "on shop and\r\nshop__")) := by
  obtain ⟨w, hs, hopens, hfollow, hfile⟩ := exists_lone_text "on __NAME__ and\r\n__NAME____"
  have hroot : placeOf w.place ⟨.here, []⟩ = [] := hopens.1.eq.symm
  have hholds : Holds "__NAME__" ⟨.here, []⟩ w ["notes.txt"] "on __NAME__ and\r\n__NAME____" := by
    rw [Holds, hroot]
    exact ⟨hopens, hfile, by decide⟩
  obtain ⟨hiff, hok, -⟩ :=
    @replaceBelow_outcome w ⟨.here, []⟩ "__NAME__" "shop" Work.usualLevels hs (by decide)
  obtain ⟨rewritten, w', hrun⟩ := hiff.2 (hfollow _)
  obtain ⟨hreplaced, hlisted⟩ := hok rewritten w' hrun
  refine ⟨w, rewritten, w', hs, hfile, hrun, (hlisted.mem_iff _).2 ⟨_, _, hholds, rfl⟩, ?_⟩
  obtain ⟨t, ht, hwritten⟩ := hreplaced.replaced _ _ hholds trivial
  have htext : t = "on shop and\r\nshop__" := by
    rw [← String.toList_inj, (Text.replaced_iff (by decide)).1 ht]
    decide
  rw [hroot, htext] at hwritten
  exact hwritten

/-- A directory can be spelled so that what is in it cannot be reached that way. -/
theorem not_forall_replaceBelow_ok :
    ¬ ∀ (w : Workspace) (root : Path) (token value : String), w.Sound → token ≠ "" →
      ∃ rewritten w', replaceBelow root token value Work.usualLevels w = .ok rewritten w' ∧
        ReplacedIn token value root (fun _ => True) w w' ∧ Listed token root w rewritten := by
  intro hall
  obtain ⟨w, hs, hhere, -, hfile⟩ := exists_lone_text "on __NAME__"
  obtain ⟨steps, hsteps⟩ : ∃ steps, steps = 1364 := ⟨_, rfl⟩
  have hopens : w.Opens ⟨.here, List.replicate steps ".."⟩ [] :=
    Workspace.opens_up hhere.1.eq.symm hsteps.le
  have hroot : placeOf w.place ⟨.here, List.replicate steps ".."⟩ = [] := hopens.1.eq.symm
  obtain ⟨rewritten, w', hrun, -⟩ :=
    hall w ⟨.here, List.replicate steps ".."⟩ "__NAME__" "shop" hs (by decide)
  have hfollow := followable_of_replaceBelow hrun
  have hshort := hfollow.below ["notes.txt"] (.file (Text.encode "on __NAME__"))
  rw [hroot] at hshort
  have hlimit :
      (⟨.here, List.replicate steps ".." ++ ["notes.txt"]⟩ : Path).text.utf8ByteSize < 4096 :=
    hshort hopens hfile
  have hlong :=
    Path.utf8ByteSize_text (p := ⟨.here, List.replicate steps ".." ++ ["notes.txt"]⟩) (by simp)
  have htwo : "..".utf8ByteSize = 2 := by decide
  have hnine : "notes.txt".utf8ByteSize = 9 := by decide
  have hhere : Path.Base.here.text.utf8ByteSize = 0 := by decide
  simp only [Path.spelledSize_append, Path.spelledSize_replicate, Path.spelledSize_cons,
    Path.spelledSize_nil, htwo, hnine, hhere] at hlong
  omega

end ApiScaffold.Placeholder
