import ApiScaffold.Proofs.Migration.Order
import ApiScaffold.Proofs.Workspace.Failure
import Mathlib.Data.List.Sort

/-! Migrations for the tables of all domains. One after another they are made in the order of the
domains, each in a directory of its own, and nothing else changes. Where one cannot be made those
before it stand and those behind it have not been begun; where all are made, making them again
changes nothing. -/
namespace ApiScaffold.Migration
open FileTree Settings
variable {w w' : Workspace} {project : Path} {root : Location}
  {time : LocalTime} {given : Option Settings}
  {chosen : Option LocalTime} {settings : Settings} {domain other : String} {domains : List String}
  {migrations directory : Path} {name : String} {directories : List Path} {t t' : FileTree}

def tablePlace (root : Location) (time : LocalTime) (domain : String) : Location :=
  root ++ migrationNames ++ [directoryName (tableName domain) time]

theorem toList_tableName (domain : String) :
    (tableName domain).toList = "create_".toList ++ (domain.toList ++ "_table".toList) := by
  have hname : tableName domain = "create_" ++ domain ++ "_table" := rfl
  rw [hname, String.toList_append, String.toList_append, List.append_assoc]

theorem tableName_ne (domain : String) : tableName domain ≠ "" := by
  intro h
  have hlist := congrArg String.toList h
  rw [toList_tableName] at hlist
  simp at hlist

theorem tableName_inj : tableName domain = tableName other ↔ domain = other := by
  rw [← String.toList_inj, toList_tableName, toList_tableName, List.append_cancel_left_eq,
    List.append_cancel_right_eq, String.toList_inj]

theorem tablePlace_inj : tablePlace root time domain = tablePlace root time other ↔
    domain = other := by
  rw [tablePlace, tablePlace, List.append_cancel_left_eq, List.singleton_inj, directoryName_inj,
    tableName_inj]

theorem slash_not_mem_tableName (h : '/' ∉ domain.toList) : '/' ∉ (tableName domain).toList := by
  rw [toList_tableName]
  simp [h]

theorem child_directoryName (h : '/' ∉ domain.toList) :
    (⟨.root, root ++ migrationNames⟩ : Path) / directoryName (tableName domain) time =
      ⟨.root, tablePlace root time domain⟩ :=
  Path.child_of_not_mem ((slash_mem_directoryName_iff _ _).not.2 (slash_not_mem_tableName h))
    (directoryName_ne (by decide) _ _) (directoryName_ne (by decide) _ _)

theorem up_not_mem_tablePlace (hup : ".." ∉ root) (time : LocalTime) (domain : String) :
    ".." ∉ tablePlace root time domain := by
  have hlast : ".." ≠ directoryName (tableName domain) time :=
    (directoryName_ne (by decide) _ _).symm
  simp [tablePlace, migrationNames, hup, hlast]

/-- A migration that is there: a directory with its two files. -/
structure Stands (t : FileTree) (l : Location) : Prop where
  directory : t.get? l = some .directory
  up : t.get? (l ++ ["up.sql"]) = some (.file (Text.encode upText))
  down : t.get? (l ++ ["down.sql"]) = some (.file (Text.encode downText))

def Making (root : Location) (time : LocalTime) (domains : List String) (l : Location) : Prop :=
  l <+: root ++ migrationNames ∨ ∃ d ∈ domains, l = tablePlace root time d

def Writing (root : Location) (time : LocalTime) (domains : List String) (l : Location) : Prop :=
  ∃ d ∈ domains, l = tablePlace root time d ++ ["up.sql"] ∨
    l = tablePlace root time d ++ ["down.sql"]

/-- Nothing has changed but migrations for the tables of some domains. -/
def OnlyTables (root : Location) (time : LocalTime) (domains : List String)
    (t t' : FileTree) : Prop :=
  Grows (Making root time domains) (Writing root time domains) t t'

theorem OnlyTables.mono {more : List String} (h : OnlyTables root time domains t t')
    (hmore : ∀ d ∈ domains, d ∈ more) : OnlyTables root time more t t' := by
  apply Grows.mono h
  · rintro l (hl | ⟨d, hd, hl⟩) -
    · exact .inl hl
    · exact .inr ⟨d, hmore d hd, hl⟩
  · rintro l ⟨d, hd, hl⟩ -
    exact ⟨d, hmore d hd, hl⟩

theorem tablePlace_append_eq {r r' : List String}
    (h : tablePlace root time domain ++ r = tablePlace root time other ++ r') :
    domain = other ∧ r = r' := by
  rw [tablePlace, tablePlace, List.append_assoc (root ++ migrationNames),
    List.append_assoc (root ++ migrationNames)] at h
  obtain ⟨hname, hr⟩ := List.cons.inj (List.append_cancel_left h)
  exact ⟨tableName_inj.1 ((directoryName_inj time).1 hname), hr⟩

theorem OnlyTables.get?_other (h : OnlyTables root time domains t t')
    (hdomain : domain ∉ domains) (r : List String) :
    t'.get? (tablePlace root time domain ++ r) = t.get? (tablePlace root time domain ++ r) := by
  apply Grows.eq_of_not h
  · rintro (hl | ⟨d, hd, hl⟩)
    · have hlong := hl.length_le
      simp [tablePlace] at hlong
    · rw [← List.append_nil (tablePlace root time d)] at hl
      exact hdomain ((tablePlace_append_eq hl).1 ▸ hd)
  · rintro ⟨d, hd, hl | hl⟩
    · exact hdomain ((tablePlace_append_eq hl).1 ▸ hd)
    · exact hdomain ((tablePlace_append_eq hl).1 ▸ hd)

theorem OnlyTables.get?_beside (h : OnlyTables root time domains t t')
    {name : String} (hname : name ≠ "db") (r : List String) :
    t'.get? (root ++ name :: r) = t.get? (root ++ name :: r) := by
  have hoff (s s' : List String) (he : root ++ name :: r ++ s = root ++ migrationNames ++ s') :
      False := by
    rw [List.append_assoc, List.append_assoc] at he
    exact hname (List.cons.inj (List.append_cancel_left he)).1
  apply Grows.eq_of_not h
  · rintro (⟨s, hl⟩ | ⟨d, hd, hl⟩)
    · exact hoff s [] (by rw [hl, List.append_nil])
    · exact hoff [] _ (by rw [List.append_nil, hl, tablePlace])
  · rintro ⟨d, hd, hl | hl⟩
    · exact hoff [] _ (by rw [List.append_nil, hl, tablePlace,
        List.append_assoc (root ++ migrationNames)])
    · exact hoff [] _ (by rw [List.append_nil, hl, tablePlace,
        List.append_assoc (root ++ migrationNames)])

theorem Stands.kept (h : Stands t (tablePlace root time domain)) (hdomain : domain ∉ domains)
    (honly : OnlyTables root time domains t t') : Stands t' (tablePlace root time domain) where
  directory := Grows.directory honly h.directory
  up := (honly.get?_other hdomain _).trans h.up
  down := (honly.get?_other hdomain _).trans h.down

/-! One migration. -/

/-- However it ends, directories are made on the way to a migration and its two files are written,
and that is all. -/
theorem confined_makePair (place : Location) (directory : Path) :
    Work.Confined place (Work.Along place directory) (fun l =>
      l = placeOf place directory ++ ["up.sql"] ∨ l = placeOf place directory ++ ["down.sql"])
    (makePair directory) := by
  have hfile (file : String) (hslash : '/' ∉ file.toList)
      (hne : file ≠ "") (hdot : file ≠ ".") (hup : file ≠ "..") :
      placeOf place (directory / file) = placeOf place directory ++ [file] := by
    rw [Path.child_of_not_mem hslash hne hdot]
    exact placeOf_append (by simpa using hup.symm) place directory
  apply (Work.confined_ensureDirectory directory).bind
  intro _
  apply (Work.confined_writeText _ upText
    (.inl (hfile _ (by decide) (by decide) (by decide) (by decide)))).bind
  intro _
  apply (Work.confined_writeText _ downText
    (.inr (hfile _ (by decide) (by decide) (by decide) (by decide)))).bind
  intro _
  exact (Work.confined_note _ _ _).bind fun _ => Work.confined_pure _

/-- The migration for the table of a domain changes nothing else, however it ends. -/
theorem onlyTables_left_create (hup : ".." ∉ root)
    (hslash : '/' ∉ domain.toList) (htime : time = chosen.getD w.clock) :
    w.Beside (Work.left (create ⟨.root, root ++ migrationNames⟩ (tableName domain) chosen) w) ∧
      OnlyTables root time [domain] w.tree
        (Work.left (create ⟨.root, root ++ migrationNames⟩ (tableName domain) chosen) w).tree := by
  have hleft : Work.left (create ⟨.root, root ++ migrationNames⟩ (tableName domain) chosen) w =
      Work.left (makePair ⟨.root, tablePlace root time domain⟩) w := by
    rw [Work.left, create_eq (tableName_ne domain), ← htime, child_directoryName hslash]
    rfl
  obtain ⟨hb, hg⟩ := confined_makePair w.place ⟨.root, tablePlace root time domain⟩ w rfl
  have hplace := up_not_mem_tablePlace hup time domain
  rw [placeOf_root hplace] at hg
  rw [hleft]
  refine ⟨hb, hg.mono ?_ ?_⟩
  · intro l hl _
    rcases List.prefix_concat_iff.1 (Work.prefix_of_along hplace hl) with rfl | habove
    · exact .inr ⟨domain, List.mem_singleton_self _, rfl⟩
    · exact .inl habove
  · exact fun l hl _ => ⟨domain, List.mem_singleton_self _, hl⟩

def Spelled (root : Location) (time : LocalTime) (domain : String) : Prop :=
  Fits (tablePlace root time domain) ∧
    (⟨.root, tablePlace root time domain ++ ["down.sql"]⟩ : Path).text.utf8ByteSize < pathLimit

theorem create_table (hplace : Fits w.place) (hup : ".." ∉ root) (hslash : '/' ∉ domain.toList)
    (htime : time = chosen.getD w.clock)
    (h : create ⟨.root, root ++ migrationNames⟩ (tableName domain) chosen w = .ok directory w') :
    directory = ⟨.root, tablePlace root time domain⟩ ∧ Spelled root time domain ∧
      Stands w'.tree (tablePlace root time domain) := by
  have hnames := up_not_mem_tablePlace hup time domain
  obtain ⟨-, hdirectory, w₁, w₂, w₃, -, -, hdown, -⟩ := create_steps h
  have hmade := made_of_create h
  rw [← htime, child_directoryName hslash] at hdirectory
  obtain ⟨l, t, hr, -⟩ := Work.writeText_eq_ok hdown
  rw [hdirectory, Path.child_of_not_mem (by decide) (by decide) (by decide)] at hr
  obtain ⟨hb, hopens, -, hupFile, hdownFile⟩ := hmade
  rw [hdirectory, placeOf_root hnames] at hopens hupFile hdownFile
  exact ⟨hdirectory, ⟨hopens.1.fits (hb.place ▸ hplace), hr.short⟩, hopens.2, hupFile, hdownFile⟩

theorem create_table_again (hslash : '/' ∉ domain.toList) (htime : time = chosen.getD w.clock)
    (hspelled : Spelled root time domain) (hstands : Stands w.tree (tablePlace root time domain)) :
    ∃ w', create ⟨.root, root ++ migrationNames⟩ (tableName domain) chosen w =
      .ok ⟨.root, tablePlace root time domain⟩ w' ∧ w.Beside w' ∧ w'.tree = w.tree := by
  obtain ⟨hfit, hshort⟩ := hspelled
  have hsize : (⟨.root, tablePlace root time domain⟩ : Path).text.utf8ByteSize =
      Path.spelledSize (tablePlace root time domain) :=
    Path.utf8ByteSize_text_root (by simp [tablePlace])
  have hsql : "up.sql".utf8ByteSize = 6 ∧ "down.sql".utf8ByteSize = 8 := by decide
  rw [Path.utf8ByteSize_text_root (by simp), Path.spelledSize_append, Path.spelledSize_cons,
    Path.spelledSize_nil] at hshort
  have hopens : w.Opens ⟨.root, tablePlace root time domain⟩ (tablePlace root time domain) :=
    ⟨Workspace.reaches_root hfit (get?_dropLast hstands.directory) (by omega), hstands.directory⟩
  have hreach (file : String) (hfile : Fits [file]) (hlong : file.utf8ByteSize ≤ 8) : w.Reaches
      ⟨.root, tablePlace root time domain ++ [file]⟩ (tablePlace root time domain ++ [file]) :=
    hopens.reaches_child hfile (by omega)
  have hup := Work.writeText_of_written (hreach "up.sql" (by decide) (by omega)) hstands.up
  have hdown := Work.writeText_of_written (hreach "down.sql" (by decide) (by omega)) hstands.down
  rw [create_eq (tableName_ne domain), ← htime, child_directoryName hslash]
  unfold makePair
  rw [Path.child_of_not_mem (by decide) (by decide) (by decide),
    Path.child_of_not_mem (by decide) (by decide) (by decide),
    Work.bind_of_ok (Work.ensureDirectory_of_opens hopens), Work.bind_of_ok hup,
    Work.bind_of_ok hdown]
  exact ⟨_, Work.bind_of_ok (Work.note_run _ _ _ w) _, ⟨_, _, rfl⟩, rfl⟩

/-! One after another. -/

/-- The migrations for the tables of domains have been made, and nothing else has changed. -/
structure Ran (root : Location) (time : LocalTime) (domains : List String)
    (w w' : Workspace) : Prop where
  beside : w.Beside w'
  spelled : ∀ d ∈ domains, Spelled root time d
  stands : ∀ d ∈ domains, Stands w'.tree (tablePlace root time d)
  only : OnlyTables root time domains w.tree w'.tree

theorem ran_of_createAll (hplace : Fits w.place)
    (hup : ".." ∉ root) (hslash : ∀ d ∈ domains, '/' ∉ d.toList)
    (hnodup : domains.Nodup) (htime : time = chosen.getD w.clock)
    (h : createAll ⟨.root, root ++ migrationNames⟩ domains chosen w = .ok directories w') :
    directories = domains.map (fun d => ⟨.root, tablePlace root time d⟩) ∧
    Ran root time domains w w' := by
  induction domains generalizing w directories with
  | nil =>
    obtain ⟨rfl, rfl⟩ := EStateM.Result.ok.inj h
    exact ⟨rfl, .refl w, by simp, by simp, .refl _ _ _⟩
  | cons domain domains ih =>
    obtain ⟨directory, w₁, rest, hcreate, hrest, rfl⟩ := Work.mapM_cons_eq_ok_iff.1 h
    rw [List.nodup_cons] at hnodup
    rw [List.forall_mem_cons] at hslash
    obtain ⟨hdirectory, hspelled, hstands⟩ := create_table hplace hup hslash.1 htime hcreate
    obtain ⟨hb, honly⟩ := onlyTables_left_create hup hslash.1 htime
    rw [Work.left_of_ok hcreate] at hb honly
    obtain ⟨hdirectories, hran⟩ := ih (hb.place ▸ hplace) hslash.2 hnodup.2 (hb.clock ▸ htime) hrest
    refine ⟨by rw [hdirectory, hdirectories, List.map_cons], hb.trans hran.beside, ?_, ?_, ?_⟩
    · exact List.forall_mem_cons.2 ⟨hspelled, hran.spelled⟩
    · exact List.forall_mem_cons.2 ⟨hstands.kept hnodup.1 hran.only, hran.stands⟩
    · have hhead : OnlyTables root time (domain :: domains) w.tree w₁.tree := honly.mono (by simp)
      exact Grows.trans hhead (hran.only.mono fun d hd => List.mem_cons_of_mem _ hd)

/-- Migrations have been made one after another up to one that cannot be made. Those before it
stand, and at and below the places of those behind it nothing has changed. -/
def StoppedAt (root : Location) (time : LocalTime) (chosen : Option LocalTime)
    (domains : List String) (e : Failure) (w w' : Workspace) : Prop :=
  ∃ earlier domain later w₁, domains = earlier ++ domain :: later ∧
    create ⟨.root, root ++ migrationNames⟩ (tableName domain) chosen w₁ = .error e w' ∧
    (∀ d ∈ earlier, Stands w'.tree (tablePlace root time d)) ∧
    OnlyTables root time (earlier ++ [domain]) w.tree w'.tree ∧ ∀ d ∈ later,
      ∀ r, w'.tree.get? (tablePlace root time d ++ r) = w.tree.get? (tablePlace root time d ++ r)

theorem stoppedAt_of_createAll {e : Failure} (hplace : Fits w.place) (hup : ".." ∉ root)
    (hslash : ∀ d ∈ domains, '/' ∉ d.toList)
    (hnodup : domains.Nodup) (htime : time = chosen.getD w.clock)
    (h : createAll ⟨.root, root ++ migrationNames⟩ domains chosen w = .error e w') :
    StoppedAt root time chosen domains e w w' := by
  obtain ⟨earlier, domain, later, directories, w₁, rfl, hearlier, hcreate⟩ := Work.mapM_eq_error h
  obtain ⟨hnodupEarlier, hnodupRest, happart⟩ := List.nodup_append.1 hnodup
  rw [List.nodup_cons] at hnodupRest
  obtain ⟨-, hran⟩ :=
    ran_of_createAll hplace hup (fun d hd => hslash d (List.mem_append_left _ hd)) hnodupEarlier
    htime hearlier
  obtain ⟨-, honly⟩ :=
    onlyTables_left_create hup (hslash domain (by simp)) (hran.beside.clock ▸ htime)
  rw [Work.left_of_error hcreate] at honly
  have hall : OnlyTables root time (earlier ++ [domain]) w.tree w'.tree :=
    Grows.trans (hran.only.mono fun d hd => List.mem_append_left _ hd) (honly.mono (by simp))
  refine ⟨earlier, domain, later, w₁, rfl, hcreate,
    fun d hd => ?_, hall, fun d hd r => hall.get?_other ?_ r⟩
  · refine (hran.stands d hd).kept ?_ honly
    rw [List.mem_singleton]
    exact happart d hd domain List.mem_cons_self
  · rw [List.mem_append, List.mem_singleton, not_or]
    exact ⟨fun hd' => happart d hd' d (List.mem_cons_of_mem _ hd) rfl,
      fun he => hnodupRest.1 (he ▸ hd)⟩

theorem createAll_again (hslash : ∀ d ∈ domains, '/' ∉ d.toList)
    (htime : time = chosen.getD w.clock) (hspelled : ∀ d ∈ domains, Spelled root time d)
    (hstands : ∀ d ∈ domains, Stands w.tree (tablePlace root time d)) :
    ∃ w', createAll ⟨.root, root ++ migrationNames⟩ domains chosen w =
      .ok (domains.map fun d => ⟨.root, tablePlace root time d⟩) w' ∧ w'.tree = w.tree := by
  induction domains generalizing w with
  | nil => exact ⟨w, rfl, rfl⟩
  | cons domain domains ih =>
    rw [List.forall_mem_cons] at hslash hspelled hstands
    obtain ⟨w₁, hcreate, hb, htree⟩ := create_table_again hslash.1 htime hspelled.1 hstands.1
    obtain ⟨w', hrest, htree'⟩ :=
      ih hslash.2 (hb.clock ▸ htime) hspelled.2 (by rw [htree]; exact hstands.2)
    exact ⟨w', Work.mapM_cons_eq_ok_iff.2 ⟨_, w₁, _, hcreate, hrest, rfl⟩, htree'.trans htree⟩

/-! The migrations of a project. -/

/-- Before anything is done the project and its settings may be refused. -/
theorem generate_refused_or (project : Path) (given : Option Settings)
    (chosen : Option LocalTime) (w : Workspace) :
    (∃ e, generate project none given chosen w = .error e w) ∨ project.hasNul = false ∧
    ∃ settings, orLoad given (project.absolute w.place) w = .ok settings w := by
  by_cases hnul : project.hasNul
  · refine .inl ⟨.nulInPath, ?_⟩
    unfold generate Work.absolute
    rw [if_pos hnul]
    rfl
  have hnul' : project.hasNul = false := by simpa using hnul
  cases hload : orLoad given (project.absolute w.place) w with
  | ok settings w₁ =>
    obtain rfl := orLoad_eq_ok hload
    exact .inr ⟨hnul', settings, rfl⟩
  | error e w₁ =>
    obtain rfl := orLoad_error hload
    refine .inl ⟨e, ?_⟩
    unfold generate
    rw [Work.bind_of_ok (Work.absolute_run hnul')]
    exact Work.bind_of_error hload _

/-- The domains of a project are the directories directly in its domain root; here they are in
order. -/
structure Domains (root : Location) (t : FileTree) (domains : List String) : Prop where
  ordered : domains.Pairwise (· < ·)
  mem_iff : ∀ d, d ∈ domains ↔ t.get? (root ++ rootNames ++ [d]) = some .directory

theorem Domains.eq {found : List String} (h : Domains root t domains) (h' : Domains root t' found)
    (hsame : ∀ d, t'.get? (root ++ rootNames ++ [d]) = t.get? (root ++ rootNames ++ [d])) :
    found = domains :=
  h'.ordered.eq_of_mem_iff h.ordered fun d => by rw [h'.mem_iff, h.mem_iff, hsame]

theorem Domains.nodup (h : Domains root t domains) : domains.Nodup :=
  h.ordered.imp fun hlt => hlt.ne

theorem onlyTables_left_ensureDirectory (hup : ".." ∉ root) (time : LocalTime) :
    w.Beside (Work.left (Work.ensureDirectory ⟨.root, root ++ migrationNames⟩) w) ∧
    OnlyTables root time [] w.tree
      (Work.left (Work.ensureDirectory ⟨.root, root ++ migrationNames⟩) w).tree := by
  have hconfined : Work.Confined w.place _ (fun _ => False) _ :=
    Work.confined_ensureDirectory ⟨.root, root ++ migrationNames⟩
  obtain ⟨hb, hg⟩ := hconfined w rfl
  refine ⟨hb, hg.mono (fun l hl _ => .inl (Work.prefix_of_along ?_ hl)) fun l hl _ => hl.elim⟩
  simp [migrationNames, hup]

/-- The domain root and its entries have paths that can be followed. -/
def Listable (root : Location) (t : FileTree) : Prop :=
  (⟨.root, root ++ rootNames⟩ : Path).text.utf8ByteSize < pathLimit ∧
  ∀ name ∈ t.names (root ++ rootNames),
    (⟨.root, root ++ rootNames ++ [name]⟩ : Path).text.utf8ByteSize < pathLimit

theorem Listable.kept (h : Listable root t) (honly : OnlyTables root time domains t t') :
    Listable root t' := by
  refine ⟨h.1, fun name hname => h.2 name ?_⟩
  obtain ⟨n, hn⟩ := mem_names.1 hname
  refine mem_names.2 ⟨n, ?_⟩
  rw [List.append_assoc] at hn ⊢
  exact (honly.get?_beside (by decide) _).symm.trans hn

/-- While nothing but migrations changes the domains that are listed are the same. -/
theorem Domains.subdirectories (hdomains : Domains root t domains) {made : List String}
    (honly : OnlyTables root time made t w.tree)
    (hfit : Fits root) (hlistable : Listable root w.tree) :
    Work.subdirectories ⟨.root, root ++ rootNames⟩ w = .ok domains w := by
  have hlist := Work.subdirectories_root (hfit.append rootNames_fits) hlistable.1 hlistable.2
  obtain ⟨-, -, -, hordered, hmem⟩ := Work.subdirectories_eq_ok (hfit.append rootNames_fits) hlist
  have hsame := hdomains.eq ⟨hordered, hmem⟩ fun d => by
    rw [List.append_assoc]
    exact honly.get?_beside (by decide) _
  rw [hlist, hsame]

theorem root_prepared (hup : ".." ∉ root) (time : LocalTime) {w₁ : Workspace}
    (hmake : Work.ensureDirectory ⟨.root, root ++ migrationNames⟩ w = .ok () w₁) :
    w.Beside w₁ ∧ OnlyTables root time [] w.tree w₁.tree ∧
      w₁.Opens ⟨.root, root ++ migrationNames⟩ (root ++ migrationNames) := by
  obtain ⟨hb, honly⟩ := onlyTables_left_ensureDirectory (w := w) hup time
  rw [Work.left_of_ok hmake] at hb honly
  obtain ⟨-, ⟨l, hopens⟩, -⟩ := Work.ensureDirectory_eq_ok hmake
  obtain rfl : l = root ++ migrationNames :=
    hopens.1.eq.trans (placeOf_root (by simp [migrationNames, hup]) _)
  exact ⟨hb, honly, hopens⟩

/-- Once their root is made, the migrations are made for just the domains of the project. -/
theorem listing_prepared (hw : w.Sound) (hup : ".." ∉ root) (hdomains : Domains root w.tree domains)
    {w₁ w₂ : Workspace} {found : List String}
    (hmake : Work.ensureDirectory ⟨.root, root ++ migrationNames⟩ w = .ok () w₁)
    (hfound : Work.subdirectories ⟨.root, root ++ rootNames⟩ w₁ = .ok found w₂) :
    w₂ = w₁ ∧ found = domains ∧ Fits root ∧ Listable root w₁.tree := by
  obtain ⟨hb, honly, hopens⟩ := root_prepared hup w.clock hmake
  have hfit : Fits root := (hopens.1.fits (hb.place ▸ hw.place)).of_append_left
  obtain ⟨-, hshort, hentries, -⟩ := Work.subdirectories_eq_ok (hfit.append rootNames_fits) hfound
  rw [hdomains.subdirectories honly hfit ⟨hshort, hentries⟩] at hfound
  obtain ⟨rfl, rfl⟩ := EStateM.Result.ok.inj hfound
  exact ⟨rfl, rfl, hfit, hshort, hentries⟩

theorem generateIn_ok (hw : w.Sound) (hup : ".." ∉ root) (hslash : ∀ d ∈ domains, '/' ∉ d.toList)
    (hdomains : Domains root w.tree domains) (htime : time = chosen.getD w.clock)
    (h : generateIn ⟨.root, root ++ migrationNames⟩ ⟨.root, root ++ rootNames⟩ none chosen w =
      .ok directories w') : directories = domains.map (fun d => ⟨.root, tablePlace root time d⟩) ∧
      Ran root time domains w w' ∧ Fits root ∧
      ∀ again : Option LocalTime, again.getD w'.clock = time →
        ∃ w'', generateIn ⟨.root, root ++ migrationNames⟩ ⟨.root, root ++ rootNames⟩ none again w' =
          .ok directories w'' ∧ w''.tree = w'.tree := by
  obtain ⟨u, w₁, hmake, hrest⟩ := Work.bind_eq_ok_iff.1 h
  obtain ⟨found, w₂, hfound, hall⟩ := Work.bind_eq_ok_iff.1 hrest
  obtain ⟨rfl, rfl, hfit, hlistable⟩ := listing_prepared hw hup hdomains hmake hfound
  obtain ⟨hb₁, honly₁, hopens⟩ := root_prepared hup time hmake
  obtain ⟨rfl, hran⟩ :=
    ran_of_createAll (hb₁.place ▸ hw.place) hup hslash hdomains.nodup (hb₁.clock ▸ htime) hall
  have honly : OnlyTables root time found w.tree w'.tree :=
    Grows.trans (honly₁.mono (by simp)) hran.only
  refine ⟨rfl, ⟨hb₁.trans hran.beside, hran.spelled, hran.stands, honly⟩, hfit,
    fun again hagainTime => ?_⟩
  obtain ⟨w'', hagain, htree⟩ := createAll_again hslash hagainTime.symm hran.spelled hran.stands
  refine ⟨w'', ?_, htree⟩
  unfold generateIn
  rw [Work.bind_of_ok (Work.ensureDirectory_of_opens (hopens.grows hran.beside hran.only))]
  exact (Work.bind_of_ok (hdomains.subdirectories honly hfit (hlistable.kept hran.only)) _).trans
    hagain

theorem generateIn_error {e : Failure} (hw : w.Sound)
    (hup : ".." ∉ root) (hslash : ∀ d ∈ domains, '/' ∉ d.toList)
    (hdomains : Domains root w.tree domains) (htime : time = chosen.getD w.clock)
    (h : generateIn ⟨.root, root ++ migrationNames⟩
      ⟨.root, root ++ rootNames⟩ none chosen w = .error e w') :
    OnlyTables root time [] w.tree w'.tree ∨ StoppedAt root time chosen domains e w w' := by
  obtain ⟨hb₁, honly₁⟩ := onlyTables_left_ensureDirectory (w := w) hup time
  rcases Work.bind_eq_error_iff.1 h with hmake | ⟨u, w₁, hmake, hrest⟩
  · rw [Work.left_of_error hmake] at honly₁
    exact .inl honly₁
  rw [Work.left_of_ok hmake] at hb₁ honly₁
  rcases Work.bind_eq_error_iff.1 hrest with hlist | ⟨found, w₂, hfound, hall⟩
  · obtain rfl := Work.subdirectories_error hlist
    exact .inl honly₁
  · obtain ⟨rfl, rfl, -, -⟩ := listing_prepared hw hup hdomains hmake hfound
    obtain ⟨earlier, domain, later, w₁, rfl, hcreate, hstands, honly, hlater⟩ :=
      stoppedAt_of_createAll (hb₁.place ▸ hw.place) hup hslash hdomains.nodup
        (hb₁.clock ▸ htime) hall
    refine .inr ⟨earlier, domain, later, w₁, rfl, hcreate, hstands,
      Grows.trans (honly₁.mono (by simp)) honly, ?_⟩
    intro d hd r
    rw [hlater d hd r, honly₁.get?_other (by simp)]

/-- No name in the tree has a slash. -/
def Slashless (t : FileTree) : Prop :=
  ∀ l n, t.get? l = some n → ∀ name ∈ l, '/' ∉ name.toList

/-- The migrations for the tables of all domains have been made, each in a directory of its own, and
nothing else has changed. -/
structure AllMade (root : Location) (time : LocalTime) (domains : List String)
    (directories : List Path) (w w' : Workspace) : Prop where
  listed : directories = domains.map fun d => ⟨.root, tablePlace root time d⟩
  distinct : directories.Nodup
  stands : ∀ d ∈ domains, Stands w'.tree (tablePlace root time d)
  only : OnlyTables root time domains w.tree w'.tree

/-- Without a name one migration is made for the table of each domain. Where that ends well all of
them stand, and once more at the same time it gives the same directories and changes nothing. Where
it fails nothing has changed but that directories above the migrations may be new, or it has stopped
at one of the domains. -/
theorem generate_tables (hw : w.Sound) (hslashless : Slashless w.tree)
    (hlayout : ∀ s, orLoad given (project.absolute w.place) w = .ok s w → s.layout = {})
    (hdomains : Domains (placeOf w.place project) w.tree domains) :
    (∀ directories w', generate project none given chosen w = .ok directories w' →
      AllMade (placeOf w.place project) (chosen.getD w.clock) domains directories w w' ∧
      ∀ again : Option LocalTime, again.getD w'.clock = chosen.getD w.clock →
        ∃ w'', generate project none given again w' = .ok directories w'' ∧ w''.tree = w'.tree) ∧
    (∀ e w', generate project none given chosen w = .error e w' →
      OnlyTables (placeOf w.place project) (chosen.getD w.clock) [] w.tree w'.tree ∨
      StoppedAt (placeOf w.place project) (chosen.getD w.clock) chosen domains e w w') := by
  have hup : ".." ∉ placeOf w.place project :=
    Path.not_mem_follow (by split <;> simp [hw.place.not_mem]) _
  have hslash : ∀ d ∈ domains, '/' ∉ d.toList := fun d hd =>
    hslashless _ _ ((hdomains.mem_iff d).1 hd) d (by simp)
  rcases generate_refused_or project given chosen w with ⟨e, hrefused⟩ | ⟨hnul, settings, hload⟩
  · rw [hrefused]
    refine ⟨nofun, fun e' w' h => .inl ?_⟩
    obtain ⟨-, rfl⟩ := EStateM.Result.error.inj h
    exact .refl _ _ _
  rw [generate_eq hnul hload (hlayout settings hload)]
  refine ⟨fun directories w' h => ?_, fun e w' h => generateIn_error hw hup hslash hdomains rfl h⟩
  obtain ⟨hlisted, hran, hfit, hagain⟩ := generateIn_ok hw hup hslash hdomains rfl h
  refine ⟨⟨hlisted, ?_, hran.stands, hran.only⟩, fun again hsame => ?_⟩
  · rw [hlisted]
    exact hdomains.nodup.map fun d d' he => tablePlace_inj.1 (Path.mk.inj he).2
  · have hplace := hran.beside.place
    have hsettings : w'.tree.get? (placeOf w.place project ++ [Failure.settingsFile]) = _ :=
      hran.only.get?_beside (by decide) []
    have hload' := orLoad_again hfit hran.beside hsettings hload
    change orLoad given (project.absolute w.place) w' = _ at hload'
    rw [← hplace] at hload'
    rw [generate_eq hnul hload' (hlayout settings hload), hplace]
    exact hagain again hsame

theorem create_table_run (hopens : w.Opens ⟨.root, root ++ migrationNames⟩ (root ++ migrationNames))
    (hslash : '/' ∉ domain.toList) (hspelled : Spelled root time domain)
    (hfree : ∀ r, w.tree.get? (tablePlace root time domain ++ r) = none) :
    ∃ directory w', create ⟨.root, root ++ migrationNames⟩ (tableName domain) (some time) w =
      .ok directory w' := by
  obtain ⟨hfit, hshort⟩ := hspelled
  have hnames : Path.namesOf (directoryName (tableName domain) time) =
      [directoryName (tableName domain) time] :=
    Path.namesOf_of_not_mem ((slash_mem_directoryName_iff _ _).not.2
      (slash_not_mem_tableName hslash))
      (directoryName_ne (by decide) _ _) (directoryName_ne (by decide) _ _)
  have hsize : (⟨.root, root ++ migrationNames⟩ : Path).text.utf8ByteSize =
      Path.spelledSize (root ++ migrationNames) :=
    Path.utf8ByteSize_text_root (by simp [migrationNames])
  have hsql : "down.sql".utf8ByteSize = 8 := by decide
  rw [Path.utf8ByteSize_text_root (by simp), tablePlace, Path.spelledSize_append,
    Path.spelledSize_append, Path.spelledSize_cons "down.sql", Path.spelledSize_nil] at hshort
  have hnone : w.tree.get? (tablePlace root time domain) = none := by
    simpa using hfree []
  refine create_run (tableName_ne domain) hopens hnames hfit.of_append_right (by omega)
    (fun ms hms content => ?_) fun file => ?_
  · cases ms with
    | nil => simp [hopens.2]
    | cons m ms =>
      obtain ⟨rfl, hnil⟩ := List.cons_prefix_cons.1 hms
      rw [List.prefix_nil.1 hnil, ← tablePlace, hnone]
      exact (Option.some_ne_none _).symm
  · rw [← tablePlace, hfree [file]]
    exact (Option.some_ne_none _).symm

theorem createAll_run (hup : ".." ∉ root)
    (hopens : w.Opens ⟨.root, root ++ migrationNames⟩ (root ++ migrationNames))
    (hslash : ∀ d ∈ domains, '/' ∉ d.toList) (hnodup : domains.Nodup)
    (hspelled : ∀ d ∈ domains, Spelled root time d)
    (hfree : ∀ d ∈ domains, ∀ r, w.tree.get? (tablePlace root time d ++ r) = none) :
    ∃ directories w',
      createAll ⟨.root, root ++ migrationNames⟩ domains (some time) w = .ok directories w' := by
  induction domains generalizing w with
  | nil => exact ⟨[], w, rfl⟩
  | cons domain domains ih =>
    rw [List.forall_mem_cons] at hslash hspelled hfree
    rw [List.nodup_cons] at hnodup
    obtain ⟨directory, w₁, hcreate⟩ := create_table_run hopens hslash.1 hspelled.1 hfree.1
    have htime : time = (some time).getD w.clock := rfl
    obtain ⟨hb, honly⟩ := onlyTables_left_create hup hslash.1 htime
    rw [Work.left_of_ok hcreate] at hb honly
    obtain ⟨rest, w', hrest⟩ :=
        ih (hopens.grows hb honly) hslash.2 hnodup.2 hspelled.2 fun d hd r => by
      rw [honly.get?_other (fun hm => hnodup.1 (List.mem_singleton.1 hm ▸ hd)), hfree.2 d hd r]
    exact ⟨directory :: rest, w',
      Work.mapM_cons_eq_ok_iff.2 ⟨directory, w₁, rest, hcreate, hrest, rfl⟩⟩

theorem generateIn_run (hfit : Fits root) (hroot : w.Opens ⟨.root, root⟩ root)
    (hdomains : Domains root w.tree domains)
    (hslash : ∀ d ∈ domains, '/' ∉ d.toList) (hspelled : ∀ d ∈ domains, Spelled root time d)
    (hmigrations : (⟨.root, root⟩ : Path).text.utf8ByteSize + Path.spelledSize migrationNames <
      pathLimit) (hlistable : Listable root w.tree) (hfree : w.tree.get? (root ++ ["db"]) = none) :
    ∃ directories w',
      generateIn ⟨.root, root ++ migrationNames⟩ ⟨.root, root ++ rootNames⟩ none (some time) w =
      .ok directories w' := by
  have hup : ".." ∉ root := hfit.not_mem
  have hnone (r : List String) : w.tree.get? (root ++ "db" :: r) = none := by
    rw [List.append_cons]
    cases r with
    | nil => simpa using hfree
    | cons name r => exact get?_append_of_ne (by simp) (by simp [hfree])
  have hclear : ∀ ms, ms <+: migrationNames →
      ∀ content, w.tree.get? (root ++ ms) ≠ some (.file content) := by
    intro ms hms content
    cases ms with
    | nil => simp [hroot.2]
    | cons m ms =>
      obtain ⟨rfl, -⟩ := List.cons_prefix_cons.1 hms
      simp [hnone]
  obtain ⟨w₁, hmake⟩ := Work.ensureDirectory_below hroot migrationNames_fits hmigrations hclear
  obtain ⟨-, honly, hopens⟩ := root_prepared hup time hmake
  obtain ⟨directories, w', hall⟩ :=
      createAll_run hup hopens hslash hdomains.nodup hspelled fun d _ r => by
    have hbeyond := Work.get?_beyond (r := directoryName (tableName d) time :: r) hroot
      migrationNames_fits.not_mem (by simp) hmake
    rw [tablePlace, List.append_assoc, List.singleton_append, hbeyond, List.append_assoc]
    exact hnone _
  refine ⟨directories, w', ?_⟩
  unfold generateIn
  rw [Work.bind_of_ok hmake]
  exact (Work.bind_of_ok (hdomains.subdirectories honly hfit (hlistable.kept honly)) _).trans hall

def twoWays : List Location :=
  [["src", "app", "domain", "orders"], ["src", "app", "domain", "users"]]

theorem exists_twoDomains : ∃ w : Workspace, w.Sound ∧ w.place = [] ∧ Slashless w.tree ∧
    Domains [] w.tree ["orders", "users"] ∧ Listable [] w.tree ∧ w.tree.get? ["db"] = none := by
  obtain ⟨w, hw, hplace, hget⟩ := Workspace.exists_directories twoWays (by decide)
  refine ⟨w, hw, hplace, ?_, ⟨by decide, fun d => ?_⟩, ⟨by decide, fun name hname => ?_⟩, ?_⟩
  · intro l n hl name hname
    rcases ((hget l n).1 hl).2 with rfl | ⟨way, hway, hway'⟩
    · cases hname
    · have hplain : ∀ way ∈ twoWays, ∀ name ∈ way, '/' ∉ name.toList := by decide
      exact hplain way hway name (hway'.mem hname)
  · rw [hget]
    simp [twoWays, rootNames, List.cons_prefix_cons]
  · obtain ⟨n, hn⟩ := mem_names.1 hname
    obtain ⟨way, hway, hname⟩ := ((hget _ _).1 hn).2.resolve_left (by simp)
    have hlong : ∀ way ∈ twoWays, ∀ r ∈ way.inits,
        (⟨.root, r⟩ : Path).text.utf8ByteSize < 4096 := by
      decide
    exact hlong way hway _ ((List.mem_inits _ _).2 hname)
  · by_contra hsome
    obtain ⟨n, hn⟩ := Option.ne_none_iff_exists'.1 hsome
    have hway := ((hget _ _).1 hn).2
    simp [twoWays, List.cons_prefix_cons] at hway

theorem generate_tables_two :
    ∃ w w' : Workspace, w.Sound ∧ Slashless w.tree ∧ Domains [] w.tree ["orders", "users"] ∧
    generate ⟨.root, []⟩ none (some {}) (some ⟨2024, 3, 5, 7, 8, 9⟩) w =
      .ok [⟨.root, ["db", "migrations", "20240305070809_create_orders_table"]⟩,
        ⟨.root, ["db", "migrations", "20240305070809_create_users_table"]⟩] w' ∧
    AllMade [] ⟨2024, 3, 5, 7, 8, 9⟩ ["orders", "users"]
      [⟨.root, ["db", "migrations", "20240305070809_create_orders_table"]⟩,
        ⟨.root, ["db", "migrations", "20240305070809_create_users_table"]⟩] w w' := by
  obtain ⟨w, hw, hplace, hslashless, hdomains, hlistable, hfree⟩ := exists_twoDomains
  have hopens : w.Opens ⟨.root, []⟩ [] :=
    ⟨Workspace.reaches_root fits_nil (get?_root _) (by decide), get?_root _⟩
  have hspelled : ∀ d ∈ ["orders", "users"], Spelled [] ⟨2024, 3, 5, 7, 8, 9⟩ d := by
    unfold Spelled
    decide
  obtain ⟨directories, w', htables⟩ :=
    generateIn_run fits_nil hopens hdomains (by decide) hspelled (by decide) hlistable hfree
  have hload : orLoad (some {}) ((⟨.root, []⟩ : Path).absolute w.place) w = .ok {} w := rfl
  have hrun := (generate_eq rfl hload rfl none).trans htables
  have hdomains' : Domains (placeOf w.place ⟨.root, []⟩) w.tree ["orders", "users"] := hdomains
  obtain ⟨hmade, -⟩ :=
    (generate_tables hw hslashless layout_of_given hdomains').1 directories w' hrun
  change AllMade [] ⟨2024, 3, 5, 7, 8, 9⟩ ["orders", "users"] directories w w' at hmade
  have hlist : directories = [⟨.root, ["db", "migrations", "20240305070809_create_orders_table"]⟩,
      ⟨.root, ["db", "migrations", "20240305070809_create_users_table"]⟩] := by
    rw [hmade.listed]
    decide
  rw [hlist] at hrun hmade
  exact ⟨w, w', hw, hslashless, hdomains, hrun, hmade⟩

end ApiScaffold.Migration
