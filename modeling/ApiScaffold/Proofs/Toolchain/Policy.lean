import ApiScaffold.Proofs.Workspace.Execution
import ApiScaffold.Proofs.Workspace.Failure

/-! What becomes of an operation on a project when programs fail. Version control, migrations and
docs go on without them and tell how far they came; builds and servers stop, and the failure is that
of the program. -/
namespace ApiScaffold

/-- The tools can be started by their names: none has NUL, with which nothing is started. -/
def Settings.Tools.Startable (tools : Settings.Tools) : Prop :=
  ∀ name ∈ [tools.cargo, tools.diesel, tools.git, tools.server, tools.migrate, tools.exportDocs],
    '\x00' ∉ name.toList

instance (tools : Settings.Tools) : Decidable tools.Startable :=
  inferInstanceAs (Decidable (∀ name ∈ _, _))

def Failure.IsOther (e : Failure) : Prop :=
  ∀ failure cause, e ≠ .program failure cause

/-- A path leads to a file or a directory. -/
def Workspace.Finds (w : Workspace) (p : Path) : Prop :=
  ∃ l node, w.Reaches p l ∧ w.tree.get? l = some node

def Workspace.Writable (w : Workspace) (p : Path) : Prop :=
  ∃ l, w.Reaches p l ∧ w.tree.get? l ≠ some .directory ∧ w.tree.get? l.dropLast = some .directory

namespace Work

theorem FailsOnly.not_failsByProgram {α : Type} {x : Work α} (h : FailsOnly Failure.IsOther x)
    (w : Workspace) : ¬ FailsByProgram x w :=
  fun ⟨failure, cause, _, he⟩ => h w _ _ he failure cause rfl

/-- Whether a path leads anywhere is known unless the path is too long. -/
theorem fileExists_run (p : Path) (w : Workspace) :
    (w.Finds p ∧ fileExists p w = .ok true w) ∨
      (¬ w.Finds p ∧ (fileExists p w = .ok false w ∨ w.tree.locate w.place p = .error .nameTooLong ∧
        fileExists p w = .error (.system (Refusal.nameTooLong.error p) []) w)) := by
  cases hs : status p w with
  | ok found w' =>
    obtain ⟨rfl, hfound⟩ := status_eq_ok hs
    cases found with
    | some node =>
      obtain ⟨l, hl⟩ := (hfound node).1 rfl
      exact .inl ⟨⟨l, node, hl⟩, bind_of_ok hs _⟩
    | none =>
      refine .inr ⟨?_, .inl (bind_of_ok hs _)⟩
      rintro ⟨l, node, hl⟩
      cases (hfound node).2 ⟨l, hl⟩
  | error e w' =>
    obtain ⟨rfl, hlong, rfl⟩ := status_error hs
    refine .inr ⟨?_, .inr ⟨hlong, bind_of_error hs _⟩⟩
    rintro ⟨l, node, ⟨-, hl⟩, -⟩
    rw [hlong] at hl
    cases hl

end Work
namespace Toolchain
open FileTree
variable {w w' : Workspace} {project file : Path} {settings : Settings} {l : Location}

/-- The directory in which the programs of a project run. -/
def home (w : Workspace) (project : Path) : String :=
  (project.absolute w.place).text

def ownProgram (settings : Settings) (name directory : String) (captured : Bool) :
    Program.Invocation :=
  ⟨[settings.tools.cargo, "run", "--bin", name], directory, captured⟩

def versionSteps (settings : Settings) (directory : String) : List Program.Invocation :=
  [[settings.tools.git, "init"], [settings.tools.git, "add", "."],
    [settings.tools.git, "commit", "-m", firstCommitMessage]].map (⟨·, directory, true⟩)

def migrationTool (settings : Settings) (directory : String) : Program.Invocation :=
  ⟨[settings.tools.diesel, "migration", "run"], directory, false⟩

def exporter (settings : Settings) (directory : String) : Program.Invocation :=
  ownProgram settings settings.tools.exportDocs directory true

def releaseBuild (settings : Settings) (directory : String) : Program.Invocation :=
  ⟨[settings.tools.cargo, "build", "--release"], directory, false⟩

/-- Version control goes through all its steps and tells whether each succeeded. -/
def TakesAllSteps (w : Workspace) (project : Path) (settings : Settings) : Prop :=
  ∃ all w', initGit project (some settings) w = .ok all w' ∧
    w'.started = w.started ++ versionSteps settings (home w project) ∧
    (all = true ↔ ∀ n < 3, ¬ w.Fails n)

/-- Migrations start the migration tool where the project's own program fails, and then only, and
tell which of the two succeeded. -/
def FallsBack (w : Workspace) (project : Path) (settings : Settings) : Prop :=
  ∃ outcome w', runMigrations project (some settings) w = .ok outcome w' ∧
    w'.started = w.started ++ ownProgram settings settings.tools.migrate (home w project) false ::
      (if w.Fails 0 then [migrationTool settings (home w project)] else []) ∧
    outcome = if ¬ w.Fails 0 then .primary else if ¬ w.Fails 1 then .fallback else .degraded

/-- Where the docs file can be written once its directory is made and the export program has run, it
is what the program printed; or no file is told and it is what was there before, or what the program
itself wrote there. -/
def WritesDocs (w : Workspace) (project : Path) (settings : Settings) (file : Path) : Prop :=
  ∀ w₁ w₂, Work.ensureDirectory file.parent w = .ok () w₁ →
    w₁.Ran (exporter settings (home w project)) w₂ → w₂.Writable file →
    ∃ w', exportDocs project (some settings) w = .ok (if w.Fails 0 then none else some file) w' ∧
      w'.started = w.started ++ [exporter settings (home w project)] ∧
      (w.Fails 0 → w'.tree = w₂.tree ∧
        (w'.tree.get? (placeOf w.place file) = w.tree.get? (placeOf w.place file) ∨
          ∃ f ∈ (w.response 0).writes, placeOf w.place f.1 = placeOf w.place file ∧
            w'.tree.get? (placeOf w.place file) = some (.file f.2))) ∧
      (¬ w.Fails 0 → Work.readText file w' = .ok (w.response 0).outcome.output w' ∧
        ∀ k, k ≠ placeOf w.place file → w'.tree.get? k = w₂.tree.get? k)

/-- The server is started if it is there once the release build succeeded. Where it is not that is
told, if its path is not too long to be followed. -/
def ServesWhatIsBuilt (w : Workspace) (project : Path) (settings : Settings)
    (server : Path) : Prop :=
  ∃ w₁, w.Ran (releaseBuild settings (home w project)) w₁ ∧
    (w.Fails 0 → ∃ failure cause,
      runProduction project (some settings) w = .error (.program failure cause) w₁) ∧
    (¬ w.Fails 0 → w₁.Finds server → ∃ w₂, w₁.Ran ⟨[server.text], home w project, false⟩ w₂ ∧
      (¬ w.Fails 1 ∧ runProduction project (some settings) w = .ok true w₂ ∨
        w.Fails 1 ∧ ∃ failure cause,
          runProduction project (some settings) w = .error (.program failure cause) w₂)) ∧
    (¬ w.Fails 0 → ¬ w₁.Finds server →
      (∃ journal, runProduction project (some settings) w = .ok false { w₁ with journal }) ∨
        w₁.tree.locate w₁.place server = .error .nameTooLong ∧
          runProduction project (some settings) w =
            .error (.system (Refusal.nameTooLong.error server) []) w₁)

/-- Which operations end by the failure of a program: the first three never, the others if one fails
that they started. -/
structure EndsByProgram (w : Workspace) (project : Path) (settings : Settings) : Prop where
  versionControl : ¬ (initGit project (some settings)).FailsByProgram w
  migrations : ¬ (runMigrations project (some settings)).FailsByProgram w
  docs : ¬ (exportDocs project (some settings)).FailsByProgram w
  development : (runDevelopment project (some settings)).Propagates w
  build : (build project (some settings)).Propagates w
  production : (runProduction project (some settings)).Propagates w

/-- How far the operations on a project come where programs fail. -/
structure FailurePolicy (w : Workspace) (project : Path) (settings : Settings) : Prop where
  versionControl : TakesAllSteps w project settings
  migrations : FallsBack w project settings
  docs : WritesDocs w project settings (settings.docsFile (project.absolute w.place))
  development : ∃ w', (runDevelopment project (some settings)).RunsOne
    (ownProgram settings settings.tools.server (home w project) false) () w w'
  build : ∃ w', (build project (some settings)).RunsOne ⟨[settings.tools.cargo, "build"],
    home w project, false⟩ () w w'
  production :
    ServesWhatIsBuilt w project settings (releaseServer settings (project.absolute w.place))

theorem openProject_run (hn : project.hasNul = false) (settings : Settings) :
    openProject project (some settings) w = .ok (project.absolute w.place, settings) w := by
  unfold openProject
  rw [Work.bind_of_ok (Work.absolute_run hn)]
  rfl

theorem failsOnly_openProject (project : Path) (settings : Settings) :
    Work.FailsOnly Failure.IsOther (openProject project (some settings)) := by
  intro w e w' h
  by_cases hn : project.hasNul = false
  · rw [openProject_run hn settings] at h
    cases h
  · rw [openProject, Work.absolute, if_pos (by simpa using hn)] at h
    obtain ⟨rfl, -⟩ := EStateM.Result.error.inj h
    exact nofun

/-- Where work goes on in another way the failure of a program is none of its own. -/
theorem failsOnly_orOnProgramFailure {α : Type} {x : Work α} {otherwise : Program.Failure → Work α}
    (h : ∀ failure, Work.FailsOnly Failure.IsOther (otherwise failure)) :
    Work.FailsOnly Failure.IsOther (Work.orOnProgramFailure x otherwise) := by
  refine Work.FailsOnly.orOnProgramFailure (fun _ e _ _ => ?_) h
  by_cases he : ∃ failure cause, e = .program failure cause
  · exact .inl he
  · exact .inr fun failure cause h => he ⟨failure, cause, h⟩

theorem failsOnly_versionStep (project : Path) (command : List String) :
    Work.FailsOnly Failure.IsOther (versionStep project command) :=
  failsOnly_orOnProgramFailure fun _ => (Work.failsOnly_note _ _ _).bind fun _ _ _ _ =>
    Work.failsOnly_pure _

theorem failsOnly_initGit (project : Path) (settings : Settings) :
    Work.FailsOnly Failure.IsOther (initGit project (some settings)) := by
  refine (failsOnly_openProject project settings).bind fun _ opened _ _ => ?_
  refine (failsOnly_versionStep _ _).bind fun _ _ _ _ =>
    (failsOnly_versionStep _ _).bind fun _ _ _ _ => ?_
  exact (failsOnly_versionStep _ _).bind fun _ _ _ _ => Work.failsOnly_pure _

theorem failsOnly_runMigrations (project : Path) (settings : Settings) :
    Work.FailsOnly Failure.IsOther (runMigrations project (some settings)) := by
  refine (failsOnly_openProject project settings).bind fun _ opened _ _ => ?_
  refine failsOnly_orOnProgramFailure fun _ => (Work.failsOnly_note _ _ _).bind fun _ _ _ _ => ?_
  exact failsOnly_orOnProgramFailure fun _ =>
    (Work.failsOnly_note _ _ _).bind fun _ _ _ _ => Work.failsOnly_pure _

theorem failsOnly_exportDocs (project : Path) (settings : Settings) :
    Work.FailsOnly Failure.IsOther (exportDocs project (some settings)) := by
  have hmisses (e : Failure) (he : Work.Misses (fun _ => True) e) : e.IsOther := by
    rintro failure cause rfl
    exact he
  refine (failsOnly_openProject project settings).bind fun _ opened _ _ => ?_
  refine ((Work.failsOnly_ensureDirectory_of_here trivial).mono hmisses).bind fun _ _ _ _ => ?_
  refine Work.FailsOnly.bind ?_ fun _ docs _ _ => ?_
  · exact failsOnly_orOnProgramFailure fun _ =>
      (Work.failsOnly_note _ _ _).bind fun _ _ _ _ => Work.failsOnly_pure _
  · cases docs with
    | none => exact Work.failsOnly_pure _
    | some text =>
      exact ((Work.failsOnly_writeText trivial text).mono hmisses).bind fun _ _ _ _ =>
        Work.failsOnly_pure _

/-- With NUL in the name of the tool version control starts nothing, and does not go on. -/
theorem initGit_of_nul (hn : project.hasNul = false) (hgit : '\x00' ∈ settings.tools.git.toList) :
    ∃ journal, initGit project (some settings) w = .error .nulInCommand { w with journal } := by
  have hnul :
      Program.Invocation.hasNul ⟨[settings.tools.git, "init"], home w project, true⟩ = true :=
    List.any_eq_true.2 ⟨settings.tools.git, by simp, decide_eq_true hgit⟩
  obtain ⟨journal, h⟩ := Work.run_of_nul hnul w
  refine ⟨journal, ?_⟩
  unfold initGit
  rw [Work.bind_of_ok (openProject_run hn settings)]
  refine Work.bind_of_error ?_ _
  exact Work.tryCatch_of_error (Work.bind_of_error h _) _

theorem ownProgram_hasNul {name directory : String}
    (captured : Bool) (ht : settings.tools.Startable)
    (hname : '\x00' ∉ name.toList) (hd : w.Opens (.ofString directory) l) :
    (ownProgram settings name directory captured).hasNul = false := by
  refine Work.hasNul_eq_false (List.forall_mem_cons.2 ⟨ht _ (by simp), ?_⟩) hd
  simpa using hname

theorem versionStep_run {command : List String} (hwords : ∀ word ∈ command, '\x00' ∉ word.toList)
    (hd : w.Opens (.ofString project.text) l) : ∃ w', w.Ran ⟨command, project.text, true⟩ w' ∧
      versionStep project command w = .ok (decide (¬ w.Fails 0)) w' := by
  obtain ⟨w₁, h⟩ := Work.run_runsOne (Work.hasNul_eq_false hwords hd) hd
  obtain ⟨w', hran, hrun⟩ := (h.bind_pure fun _ => true).orNoted
    (fun failure => s!"git step skipped: {failure.message}") (pure false)
  refine ⟨w', hran, hrun.trans ?_⟩
  by_cases hfail : w.Fails 0
  · rw [if_pos hfail, decide_eq_false (not_not.2 hfail)]
    rfl
  · rw [if_neg hfail, decide_eq_true hfail]

theorem takesAllSteps (hn : project.hasNul = false) (hd : w.Opens (.ofString (home w project)) l)
    (hgit : '\x00' ∉ settings.tools.git.toList) : TakesAllSteps w project settings := by
  have hwords (rest : List String) (hrest : ∀ word ∈ rest, '\x00' ∉ word.toList) :
      ∀ word ∈ settings.tools.git :: rest, '\x00' ∉ word.toList :=
    List.forall_mem_cons.2 ⟨hgit, hrest⟩
  obtain ⟨w₁, hran₁, h₁⟩ := versionStep_run (hwords ["init"] (by decide)) hd
  obtain ⟨w₂, hran₂, h₂⟩ := versionStep_run (hwords ["add", "."] (by decide)) (hran₁.opens hd)
  obtain ⟨w₃, hran₃, h₃⟩ :=
    versionStep_run (hwords ["commit", "-m", firstCommitMessage] (by decide))
    (hran₂.opens (hran₁.opens hd))
  refine ⟨decide (¬ w.Fails 0) && decide (¬ w₁.Fails 0) && decide (¬ w₂.Fails 0), w₃, ?_, ?_, ?_⟩
  · unfold initGit
    rw [Work.bind_of_ok (openProject_run hn settings)]
    simp only
    rw [Work.bind_of_ok h₁, Work.bind_of_ok h₂, Work.bind_of_ok h₃]
    rfl
  · rw [hran₃.started, hran₂.started, hran₁.started]
    simp [versionSteps, home]
  · rw [Bool.and_eq_true, Bool.and_eq_true, decide_eq_true_iff, decide_eq_true_iff,
      decide_eq_true_iff, hran₂.fails_iff, hran₁.fails_iff, hran₁.fails_iff]
    constructor
    · rintro ⟨⟨hinit, hadd⟩, hcommit⟩ n hn
      match n with
      | 0 => exact hinit
      | 1 => exact hadd
      | 2 => exact hcommit
    · intro h
      exact ⟨⟨h 0 (by omega), h 1 (by omega)⟩, h 2 (by omega)⟩

theorem migrationTool_run {directory : String} (ht : settings.tools.Startable)
    (hd : w.Opens (.ofString directory) l) : ∃ w',
    w.Ran (migrationTool settings directory) w' ∧
      Work.orOnProgramFailure
        (do Work.run [settings.tools.diesel, "migration", "run"] directory false; return .fallback)
        (fun failure => do
          Work.note .warning .toolchain s!"diesel CLI fallback failed: {failure.message}"
          return .degraded) w =
      .ok (if w.Fails 0 then MigrationOutcome.degraded else .fallback) w' := by
  have hnul : (migrationTool settings directory).hasNul = false :=
    Work.hasNul_eq_false (List.forall_mem_cons.2 ⟨ht _ (by simp), by decide⟩) hd
  obtain ⟨w₁, h⟩ := Work.run_runsOne hnul hd
  obtain ⟨w', hran, hrun⟩ := (h.bind_pure fun _ => MigrationOutcome.fallback).orNoted
    (fun failure => s!"diesel CLI fallback failed: {failure.message}") (pure .degraded)
  refine ⟨w', hran, hrun.trans ?_⟩
  split <;> rfl

theorem fallsBack (hn : project.hasNul = false) (hd : w.Opens (.ofString (home w project)) l)
    (ht : settings.tools.Startable) : FallsBack w project settings := by
  obtain ⟨v, hown⟩ := Work.run_runsOne
    (ownProgram_hasNul false ht (ht settings.tools.migrate (by simp)) hd) hd
  obtain ⟨w₁, hran, hrun⟩ := (hown.bind_pure fun _ => MigrationOutcome.primary).orNoted
    (fun failure => s!"failed to run migrations via project migrate bin: {failure.message}") _
  obtain ⟨w₂, hran₂, htool⟩ := migrationTool_run ht (hran.opens hd)
  have hstart : runMigrations project (some settings) w = _ :=
    (Work.bind_of_ok (openProject_run hn settings) _).trans hrun
  by_cases hfail : w.Fails 0
  · rw [if_pos hfail] at hstart
    refine ⟨_, w₂, hstart.trans htool, ?_, ?_⟩
    · rw [hran₂.started, hran.started, if_pos hfail, List.append_assoc]
      rfl
    · simp only [hran.fails_iff, hfail, not_true, if_false, ite_not]
  · rw [if_neg hfail] at hstart
    refine ⟨_, w₁, hstart, ?_, by rw [if_pos hfail]⟩
    rw [hran.started, if_neg hfail]
    rfl

/-- With the directory of the docs file made the export program runs once. If it succeeds the
file is written. -/
theorem exportDocs_run {w₁ : Workspace} (hn : project.hasNul = false)
    (hd : w.Opens (.ofString (home w project)) l)
    (ht : settings.tools.Startable) (hfile : settings.docsFile (project.absolute w.place) = file)
    (hmake : Work.ensureDirectory file.parent w = .ok () w₁) :
    ∃ w₂, w₁.Ran (exporter settings (home w project)) w₂ ∧
      exportDocs project (some settings) w = if w₁.Fails 0 then .ok none w₂ else
        (Work.writeText file (w₁.response 0).outcome.output >>= fun _ => pure (some file)) w₂ := by
  obtain ⟨hb, -, hgrows⟩ := Work.ensureDirectory_eq_ok hmake
  have hnul : (exporter settings (home w project)).hasNul = false :=
    ownProgram_hasNul true ht (ht _ (by simp)) hd
  obtain ⟨v, hread⟩ := Work.execute_runsOne hnul (hd.grows hb hgrows)
  obtain ⟨w₂, hran, hrun⟩ := (hread.bind_pure some).orNoted
    (fun failure =>
      s!"failed to export OpenAPI via project {settings.tools.exportDocs} bin: {failure.message}")
    (pure none)
  refine ⟨w₂, hran, ?_⟩
  unfold exportDocs
  rw [Work.bind_of_ok (openProject_run hn settings)]
  simp only
  rw [hfile, Work.bind_of_ok hmake]
  by_cases hfail : w₁.Fails 0
  · rw [if_pos hfail] at hrun ⊢
    exact Work.bind_of_ok hrun _
  · rw [if_neg hfail] at hrun ⊢
    exact Work.bind_of_ok hrun _

/-- With a directory made and a program run, what is at a place without a directory was there
before, or the program wrote it. -/
theorem kept_or_written {p : Path} {w₁ : Workspace} (hmake : Work.ensureDirectory p w = .ok () w₁)
    (hfree : w₁.written.get? l ≠ some .directory) : w₁.written.get? l = w.tree.get? l ∨
      ∃ f ∈ (w.response 0).writes, placeOf w.place f.1 = l ∧
        w₁.written.get? l = some (.file f.2) := by
  obtain ⟨hb, -, hgrows⟩ := Work.ensureDirectory_eq_ok hmake
  rcases w₁.get?_written l with hsame | hdir | hfile
  · rw [hsame] at hfree ⊢
    rcases hgrows l with h | ⟨-, -, h⟩ | ⟨h, -⟩
    · exact .inl h
    · exact absurd h hfree
    · exact h.elim
  · exact absurd hdir hfree
  · rw [hb.response, hb.place] at hfile
    exact .inr hfile

theorem writesDocs (hn : project.hasNul = false) (hd : w.Opens (.ofString (home w project)) l)
    (ht : settings.tools.Startable) (hfile : settings.docsFile (project.absolute w.place) = file) :
    WritesDocs w project settings file := by
  intro w₁ w₂ hmake hran hwritable
  obtain ⟨hb, -⟩ := Work.ensureDirectory_eq_ok hmake
  obtain ⟨v, hran', hrun⟩ := exportDocs_run hn hd ht hfile hmake
  obtain ⟨k, ⟨hnul, hlocate⟩, hfree, habove⟩ := hwritable
  have htree : v.tree = w₂.tree := hran'.tree.trans hran.tree.symm
  have hplace : v.place = w.place := hran'.place.trans hb.place
  rw [hran.place, hb.place] at hlocate
  rw [← htree] at hlocate hfree habove ⊢
  have hstarted : v.started = w.started ++ [exporter settings (home w project)] := by
    rw [hran'.started, hb.started]
  obtain rfl : k = placeOf w.place file := locate_eq_ok hlocate
  simp only [hb.response, hb.fails_iff] at hrun
  by_cases hfail : w.Fails 0
  · rw [if_pos hfail] at hrun
    refine ⟨v, by rw [hrun, if_pos hfail], hstarted,
      fun _ => ⟨rfl, ?_⟩, fun hok => absurd hfail hok⟩
    rw [hran'.tree] at hfree ⊢
    exact kept_or_written hmake hfree
  · rw [if_neg hfail] at hrun
    have hreach : v.Reaches file (placeOf w.place file) := ⟨hnul, by rw [hplace, hlocate]⟩
    obtain ⟨t, hwrite, hget⟩ :=
      Work.writeText_of_reaches hreach hfree habove (w.response 0).outcome.output
    refine ⟨{ v with tree := t }, hrun.trans ((Work.bind_of_ok hwrite _).trans ?_), hstarted,
      fun hf => absurd hf hfail, fun _ => ⟨Work.readText_of_writeText hwrite, fun k hk => ?_⟩⟩
    · rw [if_neg hfail]
      rfl
    · rw [hget, if_neg (Ne.symm hk)]

theorem runProduction_eq (hn : project.hasNul = false) : runProduction project (some settings) w =
    (Work.run [settings.tools.cargo, "build", "--release"] (home w project) false >>= fun _ =>
      serve (releaseServer settings (project.absolute w.place)) (home w project)) w :=
  Work.bind_of_ok (openProject_run hn settings) _

theorem serve_run {directory : String} (hd : w.Opens (.ofString directory) l) :
    (w.Finds file ∧ ∃ w',
      Work.RunsOne (serve file directory) ⟨[file.text], directory, false⟩ true w w') ∨
      (¬ w.Finds file ∧ ((∃ journal, serve file directory w = .ok false { w with journal }) ∨
        w.tree.locate w.place file = .error .nameTooLong ∧
          serve file directory w = .error (.system (Refusal.nameTooLong.error file) []) w)) := by
  rcases Work.fileExists_run file w with ⟨hfinds, hthere⟩ | ⟨hgone, hnot | ⟨hlong, hrefused⟩⟩
  · have hnul : Program.Invocation.hasNul ⟨[file.text], directory, false⟩ = false := by
      obtain ⟨k, node, ⟨hnul, -⟩, -⟩ := hfinds
      exact Work.hasNul_eq_false (List.forall_mem_singleton.2 (Path.nul_not_mem_text hnul)) hd
    obtain ⟨w', h⟩ := Work.run_runsOne hnul hd
    exact .inl ⟨hfinds, w', (h.bind_pure fun _ => true).of_eq (Work.bind_of_ok hthere _)⟩
  · exact .inr ⟨hgone, .inl ⟨_, Work.bind_of_ok hnot _⟩⟩
  · exact .inr ⟨hgone, .inr ⟨hlong, Work.bind_of_error hrefused _⟩⟩

theorem servesWhatIsBuilt (hn : project.hasNul = false)
    (hd : w.Opens (.ofString (home w project)) l)
    (hnul : (releaseBuild settings (home w project)).hasNul = false) :
    ServesWhatIsBuilt w project settings (releaseServer settings (project.absolute w.place)) := by
  obtain ⟨w₁, hran, hend⟩ := Work.run_runsOne hnul hd
  refine ⟨w₁, hran, ?_⟩
  rw [runProduction_eq hn]
  rcases hend with ⟨hok, h⟩ | ⟨hfail, failure, cause, h⟩
  · rw [Work.bind_of_ok h]
    refine ⟨fun hfail => absurd hfail hok, fun _ hfinds => ?_, fun _ hgone => ?_⟩
    · rcases serve_run (hran.opens hd) with ⟨-, w₂, hran₂, hend₂⟩ | ⟨hgone, -⟩
      · rw [hran.fails_iff] at hend₂
        exact ⟨w₂, hran₂, hend₂⟩
      · exact absurd hfinds hgone
    · rcases serve_run (hran.opens hd) with ⟨hfinds, -⟩ | ⟨-, hend₂⟩
      · exact absurd hfinds hgone
      · exact hend₂
  · rw [Work.bind_of_error h]
    exact ⟨fun _ => ⟨failure, cause, rfl⟩, fun hok => absurd hfail hok, fun hok => absurd hfail hok⟩

/-- In production the failure of each of the two programs ends the work. -/
theorem ServesWhatIsBuilt.propagates {server : Path}
    (h : ServesWhatIsBuilt w project settings server) :
    (runProduction project (some settings)).Propagates w := by
  obtain ⟨w₁, hran, hfailed, hfound, hgone⟩ := h
  have hfirst : w₁.started.length = w.started.length + 1 := by
    rw [hran.started, List.length_append, List.length_singleton]
  by_cases hfail : w.Fails 0
  · obtain ⟨failure, cause, h⟩ := hfailed hfail
    exact Work.propagates_of_error h (by omega) hfail
  · by_cases hfinds : w₁.Finds server
    · obtain ⟨w₂, hran₂, ⟨hok, h⟩ | ⟨hfail₂, failure, cause, h⟩⟩ := hfound hfail hfinds
      · refine Work.propagates_of_ok h fun n hn => ?_
        rw [hran₂.started, List.length_append, List.length_singleton, hfirst] at hn
        obtain rfl | rfl : n = 0 ∨ n = 1 := by omega
        · exact hfail
        · exact hok
      · refine Work.propagates_of_error h ?_ hfail₂
        rw [hran₂.started, List.length_append, List.length_singleton]
        omega
    · have hone (n : Nat) (hn : w.started.length + n < w₁.started.length) : ¬ w.Fails n := by
        obtain rfl : n = 0 := by omega
        exact hfail
      rcases hgone hfail hfinds with ⟨journal, h⟩ | ⟨-, h⟩
      · exact Work.propagates_of_ok h hone
      · exact Work.propagates_of_not (Work.not_failsByProgram h nofun)
          (by rwa [Work.left_of_error h])

theorem runProduction_propagates (hn : project.hasNul = false)
    (hd : w.Opens (.ofString (home w project)) l) :
    (runProduction project (some settings)).Propagates w := by
  cases hnul : (releaseBuild settings (home w project)).hasNul with
  | true =>
    obtain ⟨journal, h⟩ := Work.run_of_nul hnul w
    exact Work.propagates_of_nul ((runProduction_eq hn).trans (Work.bind_of_error h _))
  | false => exact (servesWhatIsBuilt hn hd hnul).propagates

theorem endsByProgram (hn : project.hasNul = false) (hd : w.Opens (.ofString (home w project)) l) :
    EndsByProgram w project settings where
  versionControl := (failsOnly_initGit project settings).not_failsByProgram w
  migrations := (failsOnly_runMigrations project settings).not_failsByProgram w
  docs := (failsOnly_exportDocs project settings).not_failsByProgram w
  development := (Work.run_propagates hd).of_eq (Work.bind_of_ok (openProject_run hn settings) _)
  build := (Work.run_propagates hd).of_eq (Work.bind_of_ok (openProject_run hn settings) _)
  production := runProduction_propagates hn hd

/-- For an existing project and settings given beforehand the operations keep to the
policy, whatever the programs answer. Only how far they come needs tools with names that
can be passed on. -/
theorem failurePolicy (hn : project.hasNul = false) (hd : w.Opens (.ofString (home w project)) l) :
    EndsByProgram w project settings ∧
    (settings.tools.Startable → FailurePolicy w project settings) := by
  refine ⟨endsByProgram hn hd, fun ht => ?_⟩
  have hcargo (rest : List String) (hrest : ∀ word ∈ rest, '\x00' ∉ word.toList) :
      Program.Invocation.hasNul ⟨settings.tools.cargo :: rest, home w project, false⟩ = false :=
    Work.hasNul_eq_false (List.forall_mem_cons.2 ⟨ht _ (by simp), hrest⟩) hd
  obtain ⟨w₁, hdevelopment⟩ := Work.run_runsOne
    (ownProgram_hasNul false ht (ht settings.tools.server (by simp)) hd) hd
  obtain ⟨w₂, hbuild⟩ := Work.run_runsOne (hcargo ["build"] (by decide)) hd
  exact {
    versionControl := takesAllSteps hn hd (ht _ (by simp))
    migrations := fallsBack hn hd ht
    docs := writesDocs hn hd ht rfl
    development := ⟨w₁, hdevelopment.of_eq (Work.bind_of_ok (openProject_run hn settings) _)⟩
    build := ⟨w₂, hbuild.of_eq (Work.bind_of_ok (openProject_run hn settings) _)⟩
    production := servesWhatIsBuilt hn hd (hcargo _ (by decide)) }

/-- A workspace with nothing in it, in which the first program is killed and the second succeeds. -/
def firstKilled : Workspace :=
  { Workspace.bare with script := [⟨[], .exited (-9) "" "killed"⟩, .quiet] }

/-- The root is a project as well; with these answers its migrations are applied by the
migration tool. -/
theorem failurePolicy_firstKilled :
    FailurePolicy firstKilled ⟨.here, []⟩ {} ∧ firstKilled.Fails 0 ∧ ¬ firstKilled.Fails 1 := by
  have hhome : Path.ofString (home firstKilled ⟨.here, []⟩) = ⟨.root, []⟩ := by decide
  have hd : firstKilled.Opens (.ofString (home firstKilled ⟨.here, []⟩)) [] := by
    rw [hhome]
    refine ⟨⟨rfl, ?_⟩, FileTree.get?_root _⟩
    rw [FileTree.locate, if_neg (by decide)]
    rfl
  exact ⟨(failurePolicy rfl hd).2 (by decide), by decide, by decide⟩

end Toolchain
end ApiScaffold
