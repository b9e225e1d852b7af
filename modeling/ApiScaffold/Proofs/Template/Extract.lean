import ApiScaffold.Proofs.Workspace.Failure
import ApiScaffold.Template.Basic

/-! Writing templates. Where it ends well each file of the template stands at its path below the
directory, and beyond that only directories for them have been made. -/
namespace ApiScaffold.Template
open FileTree
variable {w w' : Workspace} {root : Path} {d : Location} {files : List (String × String)}

/-- Places on the way from a directory to a file below it, the directory left out. -/
def OnTheWay (d : Location) (files : List (String × String)) (l : Location) : Prop :=
  ∃ f ∈ files, ∃ ns, ns <+: (Path.namesOf f.1).dropLast ∧ ns ≠ [] ∧ l = d ++ ns

def Target (d : Location) (files : List (String × String)) (l : Location) : Prop :=
  ∃ f ∈ files, Path.namesOf f.1 ≠ [] ∧ l = d ++ Path.namesOf f.1

theorem OnTheWay.mono {files' : List (String × String)} {l : Location} (h : OnTheWay d files l)
    (hf : ∀ f ∈ files, f ∈ files') : OnTheWay d files' l := by
  obtain ⟨f, hm, h⟩ := h
  exact ⟨f, hf f hm, h⟩

theorem Target.mono {files' : List (String × String)} {l : Location} (h : Target d files l)
    (hf : ∀ f ∈ files, f ∈ files') : Target d files' l := by
  obtain ⟨f, hm, h⟩ := h
  exact ⟨f, hf f hm, h⟩

/-- One file is written to its place, after the directories for it have been made. -/
theorem writeFile_eq_ok {file : String × String} {p : Path} (hd : w.Opens root d)
    (hp : Fits w.place) (hup : ".." ∉ Path.namesOf file.1) (h : writeFile root file w = .ok p w') :
    p = target root file.1 ∧ w.Beside w' ∧ Path.namesOf file.1 ≠ [] ∧
      w'.Reaches (target root file.1) (d ++ Path.namesOf file.1) ∧
      w'.tree.get? (d ++ Path.namesOf file.1) = some (.file (Text.encode file.2)) ∧
      Grows (fun l => Fits l ∧ OnTheWay d [file] l) (fun l => Fits l ∧ Target d [file] l)
        w.tree w'.tree := by
  unfold writeFile at h
  obtain ⟨u, w₁, hmake, h⟩ := Work.bind_eq_ok_iff.1 h
  obtain ⟨v, w₂, hwrite, h⟩ := Work.bind_eq_ok_iff.1 h
  obtain ⟨rfl, rfl⟩ := EStateM.Result.ok.inj h
  obtain ⟨hb, -, hg⟩ := Work.ensureDirectory_eq_ok hmake
  obtain ⟨l, t, hr, ht, rfl⟩ := Work.writeText_eq_ok hwrite
  have hl : l = d ++ Path.namesOf file.1 := by
    have := hr.eq.trans (placeOf_append hup w₁.place root)
    rwa [hb.place, ← hd.1.eq] at this
  have hfits : Fits l := hr.fits (hb.place ▸ hp)
  have hne : Path.namesOf file.1 ≠ [] := by
    intro hnil
    rw [hl, hnil, List.append_nil, writeAt, dif_pos (hg.directory hd.2)] at ht
    cases ht
  have hparent : (target root file.1).parent = ⟨root.base,
    root.names ++ (Path.namesOf file.1).dropLast⟩ := by
    rw [target, Path.parent, List.dropLast_append_of_ne_nil hne]
  refine ⟨rfl, hb.trans ⟨t, _, rfl⟩, hne, ?_, ?_, ?_⟩
  · rw [← hl]
    exact hr.grows ⟨t, _, rfl⟩ (grows_of_writeAt ht)
  · rw [get?_of_writeAt ht, if_pos hl]
  · refine Grows.trans (hg.mono (fun k hway hk => ?_) (fun _ hno _ => hno.elim))
      ((grows_of_writeAt ht).mono (fun _ hno _ => hno.elim) (fun k hk _ => ?_))
    · refine ⟨hway.fits (hb.place ▸ hp), file, List.mem_cons_self, ?_⟩
      rw [hparent] at hway
      exact hway.below hd (fun hm => hup (List.mem_of_mem_dropLast hm)) hb hk
    · obtain rfl := hk
      exact ⟨hfits, file, List.mem_cons_self, hne, hl⟩

theorem mapM_writeFile_eq_ok {paths : List Path} (hd : w.Opens root d) (hp : Fits w.place)
    (hup : ∀ f ∈ files, ".." ∉ Path.namesOf f.1)
    (h : files.mapM (writeFile root) w = .ok paths w') :
    paths = files.map (fun f => target root f.1) ∧ w.Beside w' ∧ Grows
      (fun l => Fits l ∧ OnTheWay d files l) (fun l => Fits l ∧ Target d files l) w.tree w'.tree ∧
      (∀ f ∈ files, w'.Reaches (target root f.1) (d ++ Path.namesOf f.1)) ∧
      ((files.map fun f => Path.namesOf f.1).Nodup → ∀ f ∈ files,
        w'.tree.get? (d ++ Path.namesOf f.1) = some (.file (Text.encode f.2))) := by
  induction files generalizing w paths with
  | nil =>
    obtain ⟨rfl, rfl⟩ := EStateM.Result.ok.inj h
    exact ⟨rfl, .refl w, .refl _ _ _, by simp, by simp⟩
  | cons f files ih =>
    obtain ⟨p, w₁, ps, hf, hrest, rfl⟩ := Work.mapM_cons_eq_ok_iff.1 h
    obtain ⟨rfl, hb, hne, hreach, hget, hg⟩ := writeFile_eq_ok hd hp (hup f List.mem_cons_self) hf
    obtain ⟨rfl, hb', hg', hreaches, hgets⟩ := ih (hd.grows hb hg) (hb.place ▸ hp)
      (fun g hm => hup g (List.mem_cons_of_mem f hm)) hrest
    have hfirst : ∀ g ∈ [f], g ∈ f :: files := fun g hm => by simp [List.mem_singleton.1 hm]
    have hlater : ∀ g ∈ files, g ∈ f :: files := fun g hm => List.mem_cons_of_mem f hm
    refine ⟨rfl, hb.trans hb', ?_, fun g hm => ?_, fun hnodup g hm => ?_⟩
    · exact (hg.mono (fun l hl _ => ⟨hl.1, hl.2.mono hfirst⟩)
        (fun l hl _ => ⟨hl.1, hl.2.mono hfirst⟩)).trans
        (hg'.mono (fun l hl _ => ⟨hl.1, hl.2.mono hlater⟩) (fun l hl _ => ⟨hl.1, hl.2.mono hlater⟩))
    · rcases List.mem_cons.1 hm with rfl | hm
      · exact hreach.grows hb' hg'
      · exact hreaches g hm
    · rw [List.map_cons, List.nodup_cons] at hnodup
      rcases List.mem_cons.1 hm with rfl | hm
      · refine hg'.of_not_written hget ?_
        rintro ⟨-, k, hk, -, he⟩
        rw [List.append_cancel_left he] at hnodup
        exact hnodup.1 (List.mem_map.2 ⟨k, hk, rfl⟩)
      · exact hgets hnodup.2 g hm

theorem extract_eq_ok {t : Template} {paths : List Path} (hd : w.Opens root d) (hp : Fits w.place)
    (h : t.extract root w = .ok paths w') : paths.length = t.files.length ∧ w.Beside w' ∧
      Grows (fun l => Fits l ∧ OnTheWay d t.files l) (fun l => Fits l ∧ Target d t.files l)
        w.tree w'.tree ∧ (∀ f ∈ t.files, w'.Reaches (target root f.1) (d ++ Path.namesOf f.1)) ∧
      ((t.files.map fun f => Path.namesOf f.1).Nodup → ∀ f ∈ t.files,
        w'.tree.get? (d ++ Path.namesOf f.1) = some (.file (Text.encode f.2))) := by
  unfold extract at h
  obtain ⟨ps, w₁, hmap, h⟩ := Work.bind_eq_ok_iff.1 h
  obtain ⟨u, w₂, hnote, h⟩ := Work.bind_eq_ok_iff.1 h
  obtain ⟨rfl, rfl⟩ := EStateM.Result.ok.inj h
  rw [Work.note_run] at hnote
  obtain ⟨-, rfl⟩ := EStateM.Result.ok.inj hnote
  obtain ⟨rfl, hb, hg, hreaches, hgets⟩ :=
    mapM_writeFile_eq_ok hd hp (fun f hf => (t.safe f hf).2) hmap
  exact ⟨by simp, hb.trans ⟨_, _, rfl⟩, hg, hreaches, hgets⟩

theorem sound_of_extract {t : Template} {paths : List Path} (hw : w.Sound) (hd : w.Opens root d)
    (h : t.extract root w = .ok paths w') : w'.Sound := by
  obtain ⟨-, hb, hg, -⟩ := extract_eq_ok hd hw.place h
  exact hw.grows hb (hg.mono (fun _ h _ => h.1) (fun _ h _ => h.1))

theorem near_of_grows (hbefore : ∀ r n, w.tree.get? (d ++ r) = some n → Work.Near root r)
    (hfiles : ∀ f ∈ files, Work.Near root (Path.namesOf f.1))
    (hg : Grows (fun l => Fits l ∧ OnTheWay d files l)
      (fun l => Fits l ∧ Target d files l) w.tree w'.tree)
    (r : List String) (n : Node) (hr : w'.tree.get? (d ++ r) = some n) : Work.Near root r := by
  rcases hg (d ++ r) with he | ⟨⟨-, f, hf, ns, hns, -, he⟩, -⟩ | ⟨⟨-, f, hf, -, he⟩, -⟩
  · exact hbefore r n (he ▸ hr)
  · rw [List.append_cancel_left he]
    exact (hfiles f hf).mono (hns.trans (List.dropLast_prefix _))
  · rw [List.append_cancel_left he]
    exact hfiles f hf

/-- There is room for files below a directory: their paths are short enough, no file is
where a directory must be and no directory where a file must be, in the tree or among the
files themselves. -/
structure Room (w : Workspace) (root : Path) (d : Location)
    (files : List (String × String)) : Prop where
  fits : ∀ f ∈ files, Fits (Path.namesOf f.1)
  named : ∀ f ∈ files, Path.namesOf f.1 ≠ []
  short : ∀ f ∈ files, root.text.utf8ByteSize + Path.spelledSize (Path.namesOf f.1) < pathLimit
  noFile : ∀ f ∈ files, ∀ ms, ms <+: (Path.namesOf f.1).dropLast →
    ∀ content, w.tree.get? (d ++ ms) ≠ some (.file content)
  noDirectory : ∀ f ∈ files, w.tree.get? (d ++ Path.namesOf f.1) ≠ some .directory
  apart : ∀ f ∈ files, ∀ g ∈ files, ¬ Path.namesOf f.1 <+: (Path.namesOf g.1).dropLast

theorem writeFile_run {file : String × String} (hd : w.Opens root d) (hr : Room w root d [file]) :
    ∃ p w', writeFile root file w = .ok p w' := by
  have hm : file ∈ [file] := List.mem_cons_self
  have hfit := hr.fits file hm
  have hne := hr.named file hm
  have hshort := hr.short file hm
  obtain ⟨above, name, hsplit⟩ : ∃ above name, Path.namesOf file.1 = above ++ [name] :=
    ⟨_, _, (List.dropLast_append_getLast hne).symm⟩
  have hdrop : (Path.namesOf file.1).dropLast = above := by rw [hsplit, List.dropLast_concat]
  have hparent : (target root file.1).parent = ⟨root.base, root.names ++ above⟩ := by
    rw [target, Path.parent, List.dropLast_append_of_ne_nil hne, hdrop]
  have hsize : root.text.utf8ByteSize + Path.spelledSize above < pathLimit := by
    rw [hsplit, Path.spelledSize_append] at hshort
    omega
  have hfit' : Fits above := by
    rw [hsplit] at hfit
    exact hfit.of_append_left
  obtain ⟨w₁, hw₁⟩ := Work.ensureDirectory_below hd hfit' hsize (hdrop ▸ hr.noFile file hm)
  obtain ⟨hb, ⟨l, hopens⟩, hg⟩ := Work.ensureDirectory_eq_ok hw₁
  have hl := hopens.1.eq.trans (placeOf_append hfit'.not_mem w₁.place root)
  rw [hb.place, ← hd.1.eq] at hl
  have hdir : w₁.tree.get? (d ++ Path.namesOf file.1).dropLast = some .directory := by
    rw [List.dropLast_append_of_ne_nil hne, hdrop, ← hl]
    exact hopens.2
  have hreach := (hd.grows hb hg).reaches hfit (fun _ => by rw [hdrop, ← hl]; exact hopens.2) hshort
  have hfree : w₁.tree.get? (d ++ Path.namesOf file.1) ≠ some .directory := by
    rcases hg (d ++ Path.namesOf file.1) with he | ⟨hway, hnone, -⟩ | ⟨hno, -⟩
    · rw [he]
      exact hr.noDirectory file hm
    · obtain ⟨ms, hms, -, he⟩ := hway.below hd hfit'.not_mem hb hnone
      rw [← hdrop, ← List.append_cancel_left he] at hms
      exact absurd hms (hr.apart file hm file hm)
    · exact hno.elim
  obtain ⟨t, ht, -⟩ := Work.writeText_of_reaches hreach hfree hdir file.2
  refine ⟨target root file.1, { w₁ with tree := t }, ?_⟩
  unfold writeFile
  rw [hparent, Work.bind_of_ok hw₁]
  exact Work.bind_of_ok ht _

theorem Room.of_mem {files' : List (String × String)} (h : Room w root d files)
    (hf : ∀ f ∈ files', f ∈ files) : Room w root d files' where
  fits f hm := h.fits f (hf f hm)
  named f hm := h.named f (hf f hm)
  short f hm := h.short f (hf f hm)
  noFile f hm := h.noFile f (hf f hm)
  noDirectory f hm := h.noDirectory f (hf f hm)
  apart f hm g hg := h.apart f (hf f hm) g (hf g hg)

theorem Room.above {made : Location → Prop} (h : Room w root d files)
    (hg : Grows made (fun _ => False) w.tree w'.tree)
    (hm : ∀ l, made l → w.tree.get? l = none → l <+: d) : Room w' root d files where
  fits := h.fits
  named := h.named
  short := h.short
  noFile f hf ms hms content he := by
    rcases hg (d ++ ms) with hs | ⟨-, -, hdir⟩ | ⟨hno, -⟩
    · exact h.noFile f hf ms hms content (hs ▸ he)
    · rw [hdir] at he
      cases he
    · exact hno
  noDirectory f hf he := by
    rcases hg (d ++ Path.namesOf f.1) with hs | ⟨hmade, hnone, -⟩ | ⟨hno, -⟩
    · exact h.noDirectory f hf (hs ▸ he)
    · have hlen := (hm _ hmade hnone).length_le
      have hpos := List.length_pos_iff.2 (h.named f hf)
      rw [List.length_append] at hlen
      omega
    · exact hno
  apart := h.apart

theorem Room.grows (h : Room w root d files)
    (hg : Grows (fun l => Fits l ∧ OnTheWay d files l) (fun l => Fits l ∧ Target d files l) w.tree
      w'.tree) : Room w' root d files where
  fits := h.fits
  named := h.named
  short := h.short
  noFile f hm ms hms content he := by
    rcases hg (d ++ ms) with hs | ⟨-, -, hdir⟩ | ⟨⟨-, g, hgm, -, hp⟩, -⟩
    · exact h.noFile f hm ms hms content (hs ▸ he)
    · rw [hdir] at he
      cases he
    · rw [List.append_cancel_left hp] at hms
      exact h.apart g hgm f hm hms
  noDirectory f hm he := by
    rcases hg (d ++ Path.namesOf f.1) with hs | ⟨⟨-, g, hgm, ns, hns, -, hp⟩, -⟩ | ⟨-, -,
      content, hfile⟩
    · exact h.noDirectory f hm (hs ▸ he)
    · rw [← List.append_cancel_left hp] at hns
      exact h.apart f hm g hgm hns
    · rw [hfile] at he
      cases he
  apart := h.apart

theorem mapM_writeFile_run (hd : w.Opens root d) (hp : Fits w.place) (hr : Room w root d files) :
    ∃ paths w', files.mapM (writeFile root) w = .ok paths w' := by
  induction files generalizing w with
  | nil => exact ⟨[], w, rfl⟩
  | cons f files ih =>
    have hfirst : ∀ g ∈ [f], g ∈ f :: files := fun g hm => by simp [List.mem_singleton.1 hm]
    have hlater : ∀ g ∈ files, g ∈ f :: files := fun g hm => List.mem_cons_of_mem f hm
    obtain ⟨p, w₁, hw₁⟩ := writeFile_run hd (hr.of_mem hfirst)
    obtain ⟨-, hb, -, -, -, hg⟩ := writeFile_eq_ok hd hp (hr.fits f List.mem_cons_self).not_mem hw₁
    have hr₁ : Room w₁ root d (f :: files) := hr.grows
      (hg.mono (fun l hl _ => ⟨hl.1, hl.2.mono hfirst⟩) (fun l hl _ => ⟨hl.1, hl.2.mono hfirst⟩))
    obtain ⟨paths, w₂, hw₂⟩ := ih (hd.grows hb hg) (hb.place ▸ hp) (hr₁.of_mem hlater)
    exact ⟨_, _, Work.mapM_cons_eq_ok_iff.2 ⟨p, w₁, paths, hw₁, hw₂, rfl⟩⟩

theorem extract_run {t : Template} (hd : w.Opens root d) (hp : Fits w.place)
    (hr : Room w root d t.files) : ∃ paths w', t.extract root w = .ok paths w' := by
  obtain ⟨paths, w₁, h⟩ := mapM_writeFile_run hd hp hr
  exact Work.bind_run h ⟨_, _, rfl⟩

/-- Writing a template fails as making the directories of its files does, or at one of the files. -/
theorem failsOnly_extract_of {paths : Path → Prop} {t : Template}
    (hmake : ∀ f ∈ t.files,
      Work.FailsOnly (Work.Misses paths) (Work.ensureDirectory (target root f.1).parent))
    (hfile : ∀ f ∈ t.files, paths (target root f.1)) :
    Work.FailsOnly (Work.Misses paths) (t.extract root) := by
  refine (Work.FailsOnly.mapM fun f hf => ?_).bind fun _ _ _ _ =>
    (Work.failsOnly_note _ _ _).bind fun _ _ _ _ => Work.failsOnly_pure _
  refine (hmake f hf).bind fun _ _ _ _ => ?_
  exact (Work.failsOnly_writeText (hfile f hf) _).bind fun _ _ _ _ => Work.failsOnly_pure _

/-- Writing a template below a directory tells of nothing missing elsewhere. -/
theorem failsOnly_extract (t : Template) (names : List String) :
    Work.FailsOnly (Work.Misses (Work.Onward ⟨.root, names⟩)) (t.extract ⟨.root, names⟩) :=
  failsOnly_extract_of (fun _ _ => Work.failsOnly_ensureDirectory) fun f _ =>
    ⟨Path.namesOf f.1, rfl⟩

end ApiScaffold.Template
