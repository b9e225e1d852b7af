import ApiScaffold.Migration
import ApiScaffold.Proofs.Settings.Layout
import ApiScaffold.Proofs.Settings.Load
import ApiScaffold.Proofs.Workspace.Confined

/-! Migrations of a given name. Such a migration should stand directly in the migrations root, in
a directory of its own with one file for either direction. It does so for just the names without
a slash; others lead to a place somewhere below or beside the root, where the two files are
written as well. -/
namespace ApiScaffold.Migration
open FileTree Settings
variable {w w' : Workspace} {name : String}
  {project migrations directory : Path} {given : Option Settings}
  {time : LocalTime} {chosen : Option LocalTime} {directories : List Path}

theorem slash_not_mem_toString (n : ℕ) : '/' ∉ (toString n).toList := by
  have hdigits : (toString n).toList = Nat.toDigits 10 n := by simp
  intro hm
  rw [hdigits] at hm
  have hslash := Nat.isDigit_of_mem_toDigits (by decide) (by decide) hm
  exact absurd hslash (by decide)

theorem slash_not_mem_twoDigits (n : ℕ) : '/' ∉ (LocalTime.twoDigits n).toList := by
  have hn := slash_not_mem_toString n
  unfold LocalTime.twoDigits
  split
  · rw [String.toList_append, List.mem_append, not_or]
    exact ⟨by decide, hn⟩
  · exact hn

theorem slash_not_mem_stamp (time : LocalTime) : '/' ∉ time.stamp.toList := by
  unfold LocalTime.stamp
  simp only [String.toList_append, List.mem_append, not_or]
  exact ⟨⟨⟨⟨⟨slash_not_mem_toString _, slash_not_mem_twoDigits _⟩, slash_not_mem_twoDigits _⟩,
    slash_not_mem_twoDigits _⟩, slash_not_mem_twoDigits _⟩, slash_not_mem_twoDigits _⟩

theorem toList_directoryName (name : String) (time : LocalTime) :
    (directoryName name time).toList = (time.stamp.toList ++ ['_']) ++ name.toList := by
  simp [directoryName]

theorem head?_directoryName (name : String) (time : LocalTime) :
    (directoryName name time).toList.head? ≠ some '/' := by
  intro hhead
  rw [toList_directoryName, List.head?_append_of_ne_nil _ (by simp)] at hhead
  rcases List.mem_append.1 (List.mem_of_head? hhead) with hm | hm
  · exact slash_not_mem_stamp time hm
  · exact absurd hm (by decide)

theorem slash_mem_directoryName_iff (name : String) (time : LocalTime) :
    '/' ∈ (directoryName name time).toList ↔ '/' ∈ name.toList := by
  rw [toList_directoryName, List.mem_append, List.mem_append]
  refine or_iff_right ?_
  rintro (hm | hm)
  · exact slash_not_mem_stamp time hm
  · exact absurd hm (by decide)

theorem directoryName_ne {s : String} (hs : '_' ∉ s.toList) (name : String) (time : LocalTime) :
    directoryName name time ≠ s := by
  rintro rfl
  exact hs (by simp [toList_directoryName])

/-- A migration stands directly in the migrations root, and besides it and its two files only
directories above it are new. -/
structure DirectChild (project : Location) (name : String) (time : LocalTime) (directory : Path)
    (w w' : Workspace) : Prop where
  parent : directory.parent = ⟨.root, project ++ migrationNames⟩
  named : directory.name = directoryName name time
  changes : Grows (· <+: project ++ migrationNames ++ [directoryName name time])
    (fun l => l = project ++ migrationNames ++ [directoryName name time] ++ ["up.sql"] ∨
      l = project ++ migrationNames ++ [directoryName name time] ++ ["down.sql"]) w.tree w'.tree

/-- A migration that has been made has its two files, and besides these only directories on
the way are new. -/
structure Made (directory : Path) (w w' : Workspace) : Prop where
  beside : w.Beside w'
  opens : w'.Opens directory (placeOf w.place directory)
  changes : Grows (Work.Along w.place directory) (fun l =>
    l = placeOf w.place directory ++ ["up.sql"] ∨ l = placeOf w.place directory ++ ["down.sql"])
    w.tree w'.tree
  up : w'.tree.get? (placeOf w.place directory ++ ["up.sql"]) = some (.file (Text.encode upText))
  down : w'.tree.get? (placeOf w.place directory ++ ["down.sql"]) =
    some (.file (Text.encode downText))

theorem writeText_in_directory {file s : String} {d : Location} (hfile : '/' ∉ file.toList)
    (hne : file ≠ "") (hdot : file ≠ ".") (hup : file ≠ "..") (hd : d = placeOf w.place directory)
    (h : Work.writeText (directory / file) s w = .ok () w') :
    w.Beside w' ∧ Grows (fun _ => False) (· = d ++ [file]) w.tree w'.tree ∧ ∀ k,
      w'.tree.get? k = if d ++ [file] = k then some (.file (Text.encode s)) else w.tree.get? k := by
  rw [Path.child_of_not_mem hfile hne hdot] at h
  obtain ⟨l, t, hr, ht, rfl⟩ := Work.writeText_eq_ok h
  have hplace : placeOf w.place ⟨directory.base, directory.names ++ [file]⟩ =
      placeOf w.place directory ++ [file] :=
    placeOf_append (by simpa using Ne.symm hup) w.place directory
  obtain rfl : l = d ++ [file] := by rw [hr.eq, hplace, hd]
  exact ⟨⟨t, _, rfl⟩, grows_of_writeAt ht, fun k => get?_of_writeAt ht⟩

theorem create_eq (hname : name ≠ "") (migrations : Path)
    (chosen : Option LocalTime) (w : Workspace) : create migrations name chosen w =
    makePair (migrations / directoryName name (chosen.getD w.clock)) w := by
  unfold create
  rw [if_neg hname]
  exact Work.bind_of_ok (Work.get_ok w) _

theorem generate_eq {settings : Settings} (hnul : project.hasNul = false)
    (hload : orLoad given (project.absolute w.place) w = .ok settings w)
    (hlayout : settings.layout = {}) (purpose : Option String) :
    generate project purpose given chosen w = generateIn ⟨.root,
      placeOf w.place project ++ migrationNames⟩ ⟨.root, placeOf w.place project ++ rootNames⟩
        purpose chosen w := by
  unfold generate
  rw [Work.bind_of_ok (Work.absolute_run hnul), Work.bind_of_ok hload, migrations_eq hlayout,
    domainRoot_eq hlayout]
  rfl

/-- Making a migration is to make its directory and to write the two files. -/
theorem create_steps (h : create migrations name chosen w = .ok directory w') :
    name ≠ "" ∧ directory = migrations / directoryName name (chosen.getD w.clock) ∧ ∃ w₁ w₂ w₃,
      Work.ensureDirectory directory w = .ok () w₁ ∧
      Work.writeText (directory / "up.sql") upText w₁ = .ok () w₂ ∧
      Work.writeText (directory / "down.sql") downText w₂ = .ok () w₃ ∧ w₃.Beside w' ∧
      w'.tree = w₃.tree := by
  by_cases hne : name = ""
  · rw [create, if_pos hne] at h
    cases h
  rw [create_eq hne] at h
  generalize migrations / directoryName name (chosen.getD w.clock) = d at h ⊢
  obtain ⟨u, w₁, hmake, h⟩ := Work.bind_eq_ok_iff.1 h
  obtain ⟨u, w₂, hup, h⟩ := Work.bind_eq_ok_iff.1 h
  obtain ⟨u, w₃, hdown, h⟩ := Work.bind_eq_ok_iff.1 h
  obtain ⟨u, w₄, hnote, h⟩ := Work.bind_eq_ok_iff.1 h
  obtain ⟨rfl, rfl⟩ := EStateM.Result.ok.inj h
  rw [Work.note_run] at hnote
  obtain ⟨-, rfl⟩ := EStateM.Result.ok.inj hnote
  exact ⟨hne, rfl, w₁, w₂, w₃, hmake, hup, hdown, ⟨_, _, rfl⟩, rfl⟩

theorem made_of_create (h : create migrations name chosen w = .ok directory w') :
    Made directory w w' := by
  obtain ⟨-, -, w₁, w₂, w₃, hmake, hup, hdown, hb₄, htree⟩ := create_steps h
  obtain ⟨hb₁, ⟨d, hopens⟩, -⟩ := Work.ensureDirectory_eq_ok hmake
  have hconfined : Work.Confined w.place _ (fun _ => False) _ :=
    Work.confined_ensureDirectory directory
  obtain ⟨-, hg₁⟩ := hconfined.of_ok rfl hmake
  have hd₁ : d = placeOf w₁.place directory := hopens.1.eq
  obtain ⟨hb₂, hg₂, hget₂⟩ :=
    writeText_in_directory (by decide) (by decide) (by decide) (by decide) hd₁ hup
  have hd₂ : d = placeOf w₂.place directory := by rw [hd₁, hb₂.place]
  obtain ⟨hb₃, hg₃, hget₃⟩ :=
    writeText_in_directory (by decide) (by decide) (by decide) (by decide) hd₂ hdown
  have hd : d = placeOf w.place directory := by rw [hd₁, hb₁.place]
  have hg₄ : Grows (fun _ => False) (fun _ => False) w₃.tree w'.tree := by
    rw [htree]
    exact .refl _ _ _
  rw [← htree] at hget₃
  constructor
  · exact ((hb₁.trans hb₂).trans hb₃).trans hb₄
  · rw [← hd]
    exact ((hopens.grows hb₂ hg₂).grows hb₃ hg₃).grows hb₄ hg₄
  · rw [← hd, htree]
    apply (hg₁.mono (fun l hl _ => hl) fun l hno _ => hno.elim).trans
    apply (hg₂.mono (fun l hno _ => hno.elim) fun l hl _ => .inl hl).trans
    exact hg₃.mono (fun l hno _ => hno.elim) fun l hl _ => .inr hl
  · rw [← hd, hget₃, if_neg (by simp), hget₂, if_pos rfl]
  · rw [← hd, hget₃, if_pos rfl]

/-- A migration of a given name is made in the migrations root, which is made before. -/
theorem made_of_generate
    (hlayout : ∀ s, Settings.orLoad given (project.absolute w.place) w = .ok s w → s.layout = {})
    (h : generate project (some name) given chosen w = .ok directories w') : ∃ directory,
      directories = [directory] ∧ directory = ⟨.root, placeOf w.place project ++ migrationNames ++
      Path.namesOf (directoryName name (chosen.getD w.clock))⟩ ∧ Made directory w w' := by
  unfold generate at h
  obtain ⟨p, w₀, habsolute, h⟩ := Work.bind_eq_ok_iff.1 h
  obtain ⟨rfl, -, rfl⟩ := Work.absolute_eq_ok habsolute
  obtain ⟨settings, w₁, hload, h⟩ := Work.bind_eq_ok_iff.1 h
  obtain rfl := orLoad_eq_ok hload
  obtain ⟨u, w₂, hmake, h⟩ := Work.bind_eq_ok_iff.1 h
  obtain ⟨directory, w₃, hcreate, h⟩ := Work.bind_eq_ok_iff.1 h
  obtain ⟨rfl, rfl⟩ := EStateM.Result.ok.inj h
  rw [migrations_eq (hlayout settings hload)] at hmake hcreate
  obtain ⟨-, hdirectory, -⟩ := create_steps hcreate
  have hmade := made_of_create hcreate
  have hconfined : Work.Confined w₁.place _ (fun _ => False) _ := Work.confined_ensureDirectory
    ⟨(project.absolute w₁.place).base, (project.absolute w₁.place).names ++ migrationNames⟩
  obtain ⟨hb, hg⟩ := hconfined.of_ok rfl hmake
  rw [Path.child_of_head (head?_directoryName _ _)] at hdirectory
  rw [hb.clock] at hdirectory
  refine ⟨directory, rfl, hdirectory, hb.trans hmade.beside, ?_, ?_, ?_, ?_⟩
  · exact hb.place ▸ hmade.opens
  · have hchanges := hmade.changes
    rw [hb.place] at hchanges
    apply (hg.mono (fun l hl _ => ?_) fun l hno _ => hno.elim).trans hchanges
    rw [hdirectory]
    exact hl.above _
  · exact hb.place ▸ hmade.up
  · exact hb.place ▸ hmade.down

theorem name_ne_of_slash {root : Location} {s : String} (hs : '/' ∈ s.toList) :
    (⟨.root, root ++ migrationNames ++ Path.namesOf s⟩ : Path).name ≠ s := by
  intro hname
  by_cases hnil : Path.namesOf s = []
  · have hlast : "migrations" = s := by
      rw [← hname, hnil]
      simp [Path.name, migrationNames]
    rw [← hlast] at hs
    exact absurd hs (by decide)
  · have hlast : (Path.namesOf s).getLast hnil = s := by
      rw [Path.name, List.getLast?_append_of_ne_nil _ hnil,
        List.getLast?_eq_some_getLast hnil] at hname
      exact hname
    exact Path.slash_not_mem_of_mem_namesOf (List.getLast_mem hnil) (hlast.symm ▸ hs)

/-- Where a migration of a given name stands directly in the migrations root. -/
theorem generate_directChild_iff (hw : w.Sound)
    (hlayout : ∀ s, Settings.orLoad given (project.absolute w.place) w = .ok s w → s.layout = {})
    (h : generate project (some name) given chosen w = .ok directories w') : ∃ directory,
      directories = [directory] ∧
      directory = ⟨.root, placeOf w.place project ++ migrationNames ++
        Path.namesOf (directoryName name (chosen.getD w.clock))⟩ ∧
      Made directory w w' ∧
      (DirectChild (placeOf w.place project) name (chosen.getD w.clock) directory w w' ↔
        '/' ∉ name.toList) := by
  obtain ⟨directory, hlist, hdirectory, hmade⟩ := made_of_generate hlayout h
  refine ⟨directory, hlist, hdirectory, hmade, ?_⟩
  generalize chosen.getD w.clock = time at hdirectory ⊢
  constructor
  · intro hchild hs
    have hnamed := hchild.named
    rw [hdirectory] at hnamed
    exact name_ne_of_slash ((slash_mem_directoryName_iff name time).2 hs) hnamed
  · intro hs
    have hslash : '/' ∉ (directoryName name time).toList :=
      (slash_mem_directoryName_iff name time).not.2 hs
    have hnames : Path.namesOf (directoryName name time) = [directoryName name time] :=
      Path.namesOf_of_not_mem hslash (directoryName_ne (by decide) name time)
        (directoryName_ne (by decide) name time)
    rw [hnames] at hdirectory
    have hup : ".." ∉ placeOf w.place project ++ migrationNames ++ [directoryName name time] := by
      have hproject : ".." ∉ placeOf w.place project :=
        Path.not_mem_follow (by split <;> simp [hw.place.not_mem]) _
      have hlast : ".." ≠ directoryName name time := (directoryName_ne (by decide) name time).symm
      simp [hproject, hlast, migrationNames]
    have hchanges := hmade.changes
    rw [hdirectory, placeOf_root hup] at hchanges
    constructor
    · rw [hdirectory, Path.parent, List.dropLast_concat]
    · rw [hdirectory]
      simp [Path.name]
    · apply hchanges.mono
      · rintro l ⟨ns, hns, rfl⟩ -
        rw [placeOf_root fun hm => hup (hns.mem hm)]
        exact hns
      · exact fun l hl _ => hl

theorem create_run {names : List String} {d : Location}
    (hne : name ≠ "") (hd : w.Opens migrations d)
    (hnames : Path.namesOf (directoryName name time) = names) (hfit : Fits names)
    (hsize : migrations.text.utf8ByteSize + Path.spelledSize names + 9 < pathLimit)
    (hfree : ∀ ms, ms <+: names → ∀ content, w.tree.get? (d ++ ms) ≠ some (.file content))
    (hnew : ∀ file, w.tree.get? (d ++ names ++ [file]) ≠ some .directory) :
    ∃ directory w', create migrations name (some time) w = .ok directory w' := by
  obtain ⟨w₁, hmake⟩ := Work.ensureDirectory_below hd hfit (by omega) hfree
  obtain ⟨hb₁, ⟨l, hopens⟩, -⟩ := Work.ensureDirectory_eq_ok hmake
  obtain rfl : l = d ++ names := by
    rw [hopens.1.eq, placeOf_append hfit.not_mem, hb₁.place, ← hd.1.eq]
  have hnew₁ : ∀ file, w₁.tree.get? (d ++ names ++ [file]) ≠ some .directory := by
    intro file
    rw [Work.get?_beyond hd hfit.not_mem (by simp) hmake]
    exact hnew file
  have hlong := Path.utf8ByteSize_text_append migrations.base migrations.names names
  have hsql : "up.sql".utf8ByteSize = 6 ∧ "down.sql".utf8ByteSize = 8 := by decide
  have hshort : (⟨migrations.base, migrations.names ++ names⟩ : Path).text.utf8ByteSize + 9 <
      pathLimit := by
    change (⟨migrations.base, migrations.names ++ names⟩ : Path).text.utf8ByteSize ≤
      migrations.text.utf8ByteSize + _ at hlong
    omega
  obtain ⟨t, hup, hget⟩ :=
    Work.writeText_of_reaches (hopens.reaches_child (by decide) (by omega)) (hnew₁ "up.sql")
    (by rw [List.dropLast_concat]; exact hopens.2) upText
  have hopens₂ := hopens.grows ⟨t, w₁.journal, rfl⟩ (grows_of_get? (hnew₁ "up.sql") hget)
  have hnew₂ : t.get? (d ++ names ++ ["down.sql"]) ≠ some .directory := by
    rw [hget, if_neg (by simp)]
    exact hnew₁ "down.sql"
  obtain ⟨t', hdown, -⟩ :=
    Work.writeText_of_reaches (hopens₂.reaches_child (by decide) (by omega)) hnew₂
    (by rw [List.dropLast_concat]; exact hopens₂.2) downText
  have hdirectory : migrations / directoryName name time = ⟨migrations.base,
    migrations.names ++ names⟩ := by
    rw [Path.child_of_head (head?_directoryName _ _), hnames]
  rw [create_eq hne, Option.getD_some, hdirectory]
  unfold makePair
  rw [Path.child_of_not_mem (by decide) (by decide) (by decide),
    Path.child_of_not_mem (by decide) (by decide) (by decide)]
  exact Work.bind_run hmake (Work.bind_run hup (Work.bind_run hdown ⟨_, _, rfl⟩))

theorem generate_bare {names : List String} (hne : name ≠ "")
    (hnames : Path.namesOf (directoryName name time) = names)
    (hfit : Fits names) (hsize : Path.spelledSize names + 23 < pathLimit) :
    ∃ directories w', generate ⟨.root, []⟩ (some name) (some {}) (some time) Workspace.bare =
      .ok directories w' := by
  have hempty (l : Location) (hl : l ≠ []) : Workspace.bare.tree.get? l = none := get?_empty hl
  have hfitRoot : Fits migrationNames := by decide
  obtain ⟨w₁, hmake⟩ := Work.ensureDirectory_below Workspace.bare_opens hfitRoot (by decide)
    fun ms _ => Workspace.get?_bare_ne_file ([] ++ ms)
  have hbeyond (r : List String) (hr : r ≠ []) : w₁.tree.get? (migrationNames ++ r) = none :=
    (Work.get?_beyond Workspace.bare_opens hfitRoot.not_mem hr hmake).trans
      (hempty _ (by simp [migrationNames]))
  change Work.ensureDirectory ⟨.root, migrationNames⟩ Workspace.bare = _ at hmake
  obtain ⟨hb₁, ⟨d, hopens⟩, -⟩ := Work.ensureDirectory_eq_ok hmake
  obtain rfl : d = migrationNames := by
    rw [hopens.1.eq, hb₁.place]
    exact placeOf_root hfitRoot.not_mem _
  have hfree : ∀ ms, ms <+: names → ∀ content,
      w₁.tree.get? (migrationNames ++ ms) ≠ some (.file content) := by
    intro ms _ content
    by_cases hms : ms = []
    · simp [hms, hopens.2]
    · simp [hbeyond ms hms]
  have hnew : ∀ file, w₁.tree.get? (migrationNames ++ names ++ [file]) ≠ some .directory := by
    intro file
    rw [List.append_assoc, hbeyond _ (by simp)]
    nofun
  have htext : (⟨.root, migrationNames⟩ : Path).text.utf8ByteSize = 14 := by decide
  obtain ⟨directory, w₂, hcreate⟩ := create_run hne hopens hnames hfit (by omega) hfree hnew
  rw [generate_eq rfl rfl rfl]
  exact Work.bind_run hmake (Work.bind_run hcreate ⟨_, _, rfl⟩)

/-- Settings that are given by default have the usual layout. -/
theorem layout_of_given (s : Settings)
    (h : Settings.orLoad (some {}) (project.absolute w.place) w = .ok s w) : s.layout = {} := by
  rw [eq_of_given h]

theorem generate_directChild_iff_users : ∃ directory w',
    generate ⟨.root, []⟩ (some "users") (some {}) (some ⟨2024, 3, 5, 7, 8, 9⟩) Workspace.bare =
      .ok [directory] w' ∧
    directory = ⟨.root, ["db", "migrations", "20240305070809_users"]⟩ ∧
    DirectChild [] "users" ⟨2024, 3, 5, 7, 8, 9⟩ directory Workspace.bare w' := by
  have hnames : Path.namesOf (directoryName "users" ⟨2024, 3, 5, 7, 8, 9⟩) =
      ["20240305070809_users"] := by
    decide
  obtain ⟨directories, w', h⟩ := generate_bare (by decide) hnames (by decide) (by decide)
  obtain ⟨directory, rfl, hdirectory, -, hiff⟩ :=
    generate_directChild_iff Workspace.bare_sound layout_of_given h
  exact ⟨directory, w', h, by rw [hdirectory, Option.getD_some, hnames]; rfl, hiff.2 (by decide)⟩

/-- A name with a slash puts the migration deeper, where it is none of those in the
migrations root. -/
theorem not_forall_directChild :
    ¬ ∀ (w w' : Workspace) (project : Path) (name : String) (time : LocalTime)
        (directories : List Path), w.Sound →
      generate project (some name) (some {}) (some time) w = .ok directories w' →
      ∃ directory, directories = [directory] ∧
        DirectChild (placeOf w.place project) name time directory w w' := by
  intro hall
  have hnames : Path.namesOf (directoryName "a/b" ⟨2024, 3, 5, 7, 8, 9⟩) =
      ["20240305070809_a", "b"] := by
    decide
  obtain ⟨directories, w', h⟩ := generate_bare (by decide) hnames (by decide) (by decide)
  obtain ⟨directory, rfl, hdirectory, -⟩ := made_of_generate layout_of_given h
  obtain ⟨directory', hlist, hchild⟩ := hall _ w' _ "a/b" _ _ Workspace.bare_sound h
  obtain rfl := List.singleton_inj.1 hlist
  have hnamed := hchild.named
  rw [hdirectory] at hnamed
  exact name_ne_of_slash (by decide) hnamed

end ApiScaffold.Migration
