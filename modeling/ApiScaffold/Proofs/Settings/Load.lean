import ApiScaffold.Proofs.Workspace.Failure
import ApiScaffold.Proofs.Workspace.Lookup
import ApiScaffold.Settings.Load

/-! Loading settings changes nothing, and it depends on the settings file alone and on the
environment's choice. -/
namespace ApiScaffold.Settings
variable {w w' : Workspace} {p : Path} {settings : Settings}

theorem isFile_eq_ok {b : Bool} (h : Work.isFile p w = .ok b w') : w' = w := by
  unfold Work.isFile at h
  obtain ⟨n, w₁, hs, he⟩ := Work.bind_eq_ok_iff.1 h
  obtain ⟨rfl, -⟩ := Work.status_eq_ok hs
  exact (EStateM.Result.ok.inj he).2.symm

theorem ofFile_eq_ok (h : ofFile p w = .ok settings w') : w' = w := by
  unfold ofFile at h
  obtain ⟨b, w₁, hf, hrest⟩ := Work.bind_eq_ok_iff.1 h
  obtain rfl := isFile_eq_ok hf
  cases b with
  | false => exact (EStateM.Result.ok.inj hrest).2.symm
  | true =>
    obtain ⟨bytes, w₂, hb, hdone⟩ := Work.bind_eq_ok_iff.1 hrest
    obtain ⟨rfl, -⟩ := Work.readBytes_eq_ok_iff.1 hb
    cases ho : ofBytes p bytes with
    | ok s => simp only [ho] at hdone; exact (EStateM.Result.ok.inj hdone).2.symm
    | error f => simp only [ho] at hdone; cases hdone

theorem load_eq_ok (h : load p w = .ok settings w') : w' = w := by
  unfold load at h
  obtain ⟨s, w₁, hf, hrest⟩ := Work.bind_eq_ok_iff.1 h
  obtain rfl := ofFile_eq_ok hf
  obtain ⟨v, w₂, hget, hdone⟩ := Work.bind_eq_ok_iff.1 hrest
  obtain ⟨rfl, rfl⟩ := EStateM.Result.ok.inj hget
  generalize w₁.cargo = cargo at hdone
  split at hdone <;> exact (EStateM.Result.ok.inj hdone).2.symm

/-- Settings with the environment's choice of a build tool. -/
def chosen (cargo : Option String) (s : Settings) : Settings :=
  match cargo with
  | none | some "" => s
  | some cargo => { s with tools.cargo := cargo }

theorem load_of_ofFile (h : ofFile (p / Failure.settingsFile) w = .ok settings w) :
    load p w = .ok (settings.chosen w.cargo) w := by
  unfold load chosen
  rw [Work.bind_of_ok h, Work.bind_of_ok (Work.get_ok w)]
  generalize w.cargo = cargo
  split
  · rfl
  · rfl
  · simp [pure, EStateM.pure]

/-- Where a settings file is, loading tells what it spells out. -/
theorem load_run_of_file {l : Location} {bytes : ByteArray}
    (hr : w.Reaches (p / Failure.settingsFile) l) (hl : w.tree.get? l = some (.file bytes)) :
    load p w = match ofBytes (p / Failure.settingsFile) bytes with
      | .ok settings => .ok (settings.chosen w.cargo) w
      | .error f => .error f w := by
  have hfile : Work.isFile (p / Failure.settingsFile) w = .ok true w := by
    unfold Work.isFile
    rw [Work.bind_of_ok (Work.status_of_reaches hr), hl]
    rfl
  have hbytes : Work.readBytes (p / Failure.settingsFile) w = .ok bytes w :=
    Work.readBytes_eq_ok_iff.2 ⟨rfl, l, hr, hl⟩
  have hread : ofFile (p / Failure.settingsFile) w =
    match ofBytes (p / Failure.settingsFile) bytes with
      | .ok settings => .ok settings w
      | .error f => .error f w := by
    unfold ofFile
    rw [Work.bind_of_ok hfile, Bool.not_true, if_neg Bool.false_ne_true, Work.bind_of_ok hbytes]
    cases ofBytes (p / Failure.settingsFile) bytes <;> rfl
  cases hs : ofBytes (p / Failure.settingsFile) bytes with
  | error f =>
    rw [hs] at hread
    exact Work.bind_of_error hread _
  | ok settings =>
    rw [hs] at hread
    exact load_of_ofFile hread

theorem load_of_file {l : Location} {bytes : ByteArray} (hcargo : w.cargo = none)
    (hr : w.Reaches (p / Failure.settingsFile) l) (hl : w.tree.get? l = some (.file bytes)) :
    load p w = match ofBytes (p / Failure.settingsFile) bytes with
      | .ok settings => .ok settings w
      | .error f => .error f w := by
  rw [load_run_of_file hr hl, hcargo]
  rfl

theorem load_run_of_none {l : Location} (hfit : FileTree.Fits (l ++ [Failure.settingsFile]))
    (hshort : (⟨.root, l ++ [Failure.settingsFile]⟩ : Path).text.utf8ByteSize < FileTree.pathLimit)
    (hl : ∀ bytes, w.tree.get? (l ++ [Failure.settingsFile]) ≠ some (.file bytes)) :
    load ⟨.root, l⟩ w = .ok (({} : Settings).chosen w.cargo) w := by
  have hfile : Work.isFile ⟨.root, l ++ [Failure.settingsFile]⟩ w = .ok false w := by
    unfold Work.isFile
    rw [Work.bind_of_ok (Work.status_root hfit hshort)]
    cases hget : w.tree.get? (l ++ [Failure.settingsFile]) with
    | none => rfl
    | some node =>
      cases node with
      | directory => rfl
      | file bytes => exact absurd hget (hl bytes)
  apply load_of_ofFile
  rw [Path.child_of_not_mem (by decide) (by decide) (by decide)]
  unfold ofFile
  rw [Work.bind_of_ok hfile]
  rfl

theorem load_again {l : Location} (hfit : FileTree.Fits l) (hb : w.Beside w')
    (hsame : w'.tree.get? (l ++ [Failure.settingsFile]) = w.tree.get? (l ++ [Failure.settingsFile]))
    (h : load ⟨.root, l⟩ w = .ok settings w) : load ⟨.root, l⟩ w' = .ok settings w' := by
  have hchild : (⟨.root, l⟩ : Path) / Failure.settingsFile = ⟨.root, l ++ [Failure.settingsFile]⟩ :=
    Path.child_of_not_mem (by decide) (by decide) (by decide)
  have hfit' : FileTree.Fits (l ++ [Failure.settingsFile]) := hfit.append (by decide)
  have hcargo : w'.cargo = w.cargo := by
    obtain ⟨t, j, rfl⟩ := hb
    rfl
  have hshort : (⟨.root, l ++ [Failure.settingsFile]⟩ : Path).text.utf8ByteSize <
      FileTree.pathLimit := by
    obtain ⟨s, w₁, hf, -⟩ := Work.bind_eq_ok_iff.1 h
    obtain ⟨b, w₂, hfile, -⟩ := Work.bind_eq_ok_iff.1 hf
    obtain ⟨n, w₃, hs, -⟩ := Work.bind_eq_ok_iff.1 hfile
    rw [hchild] at hs
    exact Work.short_of_status hfit' hs
  by_cases hfile : ∃ bytes, w.tree.get? (l ++ [Failure.settingsFile]) = some (.file bytes)
  · obtain ⟨bytes, hl⟩ := hfile
    have hl' := hsame.trans hl
    have hr := Workspace.reaches_root hfit' (FileTree.get?_dropLast hl) hshort
    have hr' := Workspace.reaches_root hfit' (FileTree.get?_dropLast hl') hshort
    rw [← hchild] at hr hr'
    rw [load_run_of_file hr hl] at h
    rw [load_run_of_file hr' hl', hcargo]
    cases hbytes : ofBytes ((⟨.root, l⟩ : Path) / Failure.settingsFile) bytes with
    | error f =>
      rw [hbytes] at h
      cases h
    | ok s =>
      rw [hbytes] at h
      simp only [(EStateM.Result.ok.inj h).1]
  · have hno : ∀ bytes, w.tree.get? (l ++ [Failure.settingsFile]) ≠ some (.file bytes) :=
      fun bytes hl => hfile ⟨bytes, hl⟩
    rw [load_run_of_none hfit' hshort hno] at h
    rw [load_run_of_none hfit' hshort (hsame ▸ hno), hcargo, (EStateM.Result.ok.inj h).1]

theorem orLoad_eq_ok {given : Option Settings}
    (h : orLoad given p w = .ok settings w') : w' = w := by
  cases given with
  | none => exact load_eq_ok h
  | some s => exact (EStateM.Result.ok.inj h).2.symm

/-- Settings that cannot be read leave everything as it is: the file cannot be looked at, or its
bytes spell out none. -/
theorem ofFile_eq_error {e : Failure} (h : ofFile p w = .error e w') :
    w' = w ∧ (Work.Misses (fun _ => True) e ∨
      ∃ bytes, Work.readBytes p w = .ok bytes w ∧ ofBytes p bytes = .error e) := by
  have hstatus : Work.FailsOnly (Work.Misses fun _ => True) (Work.status p) :=
    Work.failsOnly_status trivial
  have hread : Work.FailsOnly (Work.Misses fun _ => True) (Work.readBytes p) :=
    Work.failsOnly_look trivial _
  rcases Work.bind_eq_error_iff.1 h with hfile | ⟨b, w₁, hfile, hrest⟩
  · rcases Work.bind_eq_error_iff.1 hfile with hnode | ⟨node, w₁, -, hend⟩
    · exact ⟨(Work.status_error hnode).1, .inl (hstatus _ _ _ hnode)⟩
    · cases hend
  obtain rfl := isFile_eq_ok hfile
  cases b with
  | false => cases hrest
  | true =>
    rcases Work.bind_eq_error_iff.1 hrest with hlook | ⟨bytes, w₂, hbytes, hend⟩
    · exact ⟨Work.look_error hlook, .inl (hread _ _ _ hlook)⟩
    obtain ⟨rfl, -⟩ := Work.readBytes_eq_ok_iff.1 hbytes
    cases hof : ofBytes p bytes with
    | ok settings =>
      simp only [hof] at hend
      cases hend
    | error f =>
      simp only [hof] at hend
      obtain ⟨rfl, rfl⟩ := EStateM.Result.error.inj hend
      exact ⟨rfl, .inr ⟨bytes, hbytes, hof⟩⟩

theorem ofFile_of_load_error {e : Failure} (h : load p w = .error e w') :
    ofFile (p / Failure.settingsFile) w = .error e w' := by
  rcases Work.bind_eq_error_iff.1 h with hfile | ⟨s, w₁, -, hend⟩
  · exact hfile
  · rcases Work.bind_eq_error_iff.1 hend with hget | ⟨v, w₂, -, hdone⟩
    · cases hget
    · generalize v.cargo = cargo at hdone
      split at hdone <;> cases hdone

theorem orLoad_error {given : Option Settings} {e : Failure}
    (h : orLoad given p w = .error e w') : w' = w := by
  cases given with
  | some s => cases h
  | none => exact (ofFile_eq_error (ofFile_of_load_error h)).1

theorem orLoad_again {given : Option Settings}
    {l : Location} (hfit : FileTree.Fits l) (hb : w.Beside w')
    (hsame : w'.tree.get? (l ++ [Failure.settingsFile]) = w.tree.get? (l ++ [Failure.settingsFile]))
    (h : orLoad given ⟨.root, l⟩ w = .ok settings w) :
    orLoad given ⟨.root, l⟩ w' = .ok settings w' := by
  cases given with
  | none => exact load_again hfit hb hsame h
  | some s =>
    obtain ⟨rfl, -⟩ := EStateM.Result.ok.inj h
    rfl

theorem eq_of_given {given : Settings} (h : orLoad (some given) p w = .ok settings w') :
    settings = given :=
  (EStateM.Result.ok.inj h).1.symm

end ApiScaffold.Settings
