import ApiScaffold.Proofs.Workspace.Directories
import ApiScaffold.Proofs.Workspace.Programs

/-! Programs one by one. Each that is started uses up one answer, and the answer decides how its run
ends: well, with the output, or with the failure of a program, as long as the directory in which it
runs is there. -/
namespace ApiScaffold
open FileTree

def Program.Outcome.Succeeds : Program.Outcome → Prop
  | .exited status _ _ => status = 0
  | .notStarted _ => False

instance : DecidablePred Program.Outcome.Succeeds
  | .exited status _ _ => inferInstanceAs (Decidable (status = 0))
  | .notStarted _ => .isFalse id

def Program.Outcome.output : Program.Outcome → String
  | .exited _ output _ => output
  | .notStarted _ => ""

namespace Workspace
variable {w w' w'' : Workspace} {i : Program.Invocation} {p : Path} {l : Location} {n : Nat}

def response (w : Workspace) (n : Nat) : Program.Response :=
  w.script[n]?.getD .quiet

/-- A program still to be started will fail: it cannot be started, or exits with a status
other than zero. -/
def Fails (w : Workspace) (n : Nat) : Prop :=
  ¬ (w.response n).outcome.Succeeds

instance : Decidable (w.Fails n) :=
  inferInstanceAs (Decidable (¬ _))

/-- The tree with the files written that the next program writes. -/
def written (w : Workspace) : FileTree :=
  (w.response 0).writes.foldl (fun t (p, content) => t.deposit w.place p content) w.tree

/-- One program has run. It has written its files and used up its answer, and notes may
have been made. -/
def Ran (i : Program.Invocation) (w w' : Workspace) : Prop :=
  ∃ journal, w' =
    { w with tree := w.written, script := w.script.tail, started := w.started ++ [i], journal }

theorem Ran.place (h : w.Ran i w') : w'.place = w.place := by
  obtain ⟨journal, rfl⟩ := h
  rfl

theorem Ran.tree (h : w.Ran i w') : w'.tree = w.written := by
  obtain ⟨journal, rfl⟩ := h
  rfl

theorem Ran.started (h : w.Ran i w') : w'.started = w.started ++ [i] := by
  obtain ⟨journal, rfl⟩ := h
  rfl

theorem Ran.response (h : w.Ran i w') (n : Nat) : w'.response n = w.response (n + 1) := by
  obtain ⟨journal, rfl⟩ := h
  rw [Workspace.response, Workspace.response, List.getElem?_tail]

theorem Ran.fails_iff (h : w.Ran i w') (n : Nat) : w'.Fails n ↔ w.Fails (n + 1) := by
  rw [Fails, Fails, h.response]

theorem Ran.alike (h : w.Ran i w') (journal : List Journal.Entry) :
    w.Ran i { w' with journal } := by
  obtain ⟨j, rfl⟩ := h
  exact ⟨journal, rfl⟩

theorem Ran.of_started (hn : i.hasNul = false) (w : Workspace) (journal : List Journal.Entry) :
    w.Ran i (Work.left (Work.start i) { w with journal }) := by
  refine ⟨journal, ?_⟩
  rw [Work.left_of_ok (Work.start_of_words hn _), written,
    Workspace.response, ← List.head?_eq_getElem?]

/-- A program only adds to the tree, or changes files in it. -/
theorem Ran.grows (h : w.Ran i w') : Grows (fun _ => True) (fun _ => True) w.tree w'.tree := by
  rw [h.tree]
  exact (@grows_of_deposits (fun _ => True) w.place _ (fun _ _ => trivial) w.tree).mono
    (fun _ _ _ => trivial) fun _ _ _ => trivial

theorem get?_written (w : Workspace) (k : Location) : w.written.get? k = w.tree.get? k ∨
    w.written.get? k = some .directory ∨
    ∃ f ∈ (w.response 0).writes, placeOf w.place f.1 = k ∧ w.written.get? k = some (.file f.2) := by
  unfold written
  generalize w.tree = t
  induction (w.response 0).writes generalizing t with
  | nil => exact .inl rfl
  | cons f writes ih =>
    rw [List.foldl_cons]
    rcases ih (t.deposit w.place f.1 f.2) with h | h | ⟨g, hg, hplace, h⟩
    · rw [h]
      rcases get?_deposit t w.place f.1 f.2 k with h | h | ⟨hplace, h⟩
      · exact .inl h
      · exact .inr (.inl h)
      · exact .inr (.inr ⟨f, List.mem_cons_self, hplace, h⟩)
    · exact .inr (.inl h)
    · exact .inr (.inr ⟨g, List.mem_cons_of_mem f hg, hplace, h⟩)

theorem Beside.fails_iff (h : w.Beside w') (n : Nat) : w'.Fails n ↔ w.Fails n := by
  obtain ⟨tree, journal, rfl⟩ := h
  rfl

theorem Beside.response (h : w.Beside w') (n : Nat) : w'.response n = w.response n := by
  obtain ⟨tree, journal, rfl⟩ := h
  rfl

theorem Beside.started (h : w.Beside w') : w'.started = w.started := by
  obtain ⟨tree, journal, rfl⟩ := h
  rfl

theorem Ran.opens (h : w.Ran i w') (hp : w.Opens p l) : w'.Opens p l := by
  refine ⟨⟨hp.1.1, ?_⟩, h.grows.directory hp.2⟩
  rw [h.place]
  exact h.grows.locate hp.1.2

end Workspace

namespace Work
variable {α β : Type} {w w' : Workspace} {i : Program.Invocation} {l : Location}
  {x : Work α} {a : α}

/-- Work runs one program and ends as this does, with a known result if it ends well. -/
def RunsOne (x : Work α) (i : Program.Invocation) (a : α) (w w' : Workspace) : Prop :=
  w.Ran i w' ∧ (¬ w.Fails 0 ∧ x w = .ok a w' ∨
    w.Fails 0 ∧ ∃ failure cause, x w = .error (.program failure cause) w')

theorem start_run (hn : i.hasNul = false) (w : Workspace) :
    start i w = .ok (w.response 0).outcome (left (start i) w) := by
  rw [Workspace.response, ← List.head?_eq_getElem?, left_of_ok (start_of_words hn w),
    start_of_words hn]

/-- Where a word cannot be passed on nothing is started: only the note of the attempt is left. -/
theorem execute_of_nul (hn : i.hasNul = true) (w : Workspace) :
    ∃ journal, execute i w = .error .nulInCommand { w with journal } := by
  unfold execute
  rw [bind_of_ok (note_run _ _ _ w)]
  exact ⟨_, bind_of_error (start_of_nul hn _) _⟩

theorem reasonNotStarted_run {directory : String} (hd : w.Opens (.ofString directory) l)
    (e : SystemError) : ∃ reason, during e (reasonNotStarted directory e) w = .ok reason w := by
  by_cases hn : e.number = Refusal.missing.number
  · refine ⟨s!"program not found ({e.message})", during_of_ok ?_⟩
    rw [reasonNotStarted, if_pos hn, bind_of_ok (isDirectory_of_opens hd)]
    rfl
  · refine ⟨s!"could not start ({e.message})", during_of_ok ?_⟩
    rw [reasonNotStarted, if_neg hn]
    rfl

/-- A program that is started in a directory that is there runs once, whatever its answer. -/
theorem execute_runsOne (hn : i.hasNul = false) (hd : w.Opens (.ofString i.directory) l) : ∃ w',
    RunsOne (execute i) i (if i.captured then (w.response 0).outcome.output else "") w w' := by
  let noted : Workspace := { w with
    journal := w.journal ++
      [⟨.debug, .programs, "Running " ++ " ".intercalate i.command ++ s!" in {i.directory}"⟩] }
  have hran : w.Ran i (left (start i) noted) := .of_started hn w noted.journal
  have hstart : start i noted = .ok (w.response 0).outcome (left (start i) noted) :=
    start_run hn noted
  refine ⟨left (start i) noted, hran, ?_⟩
  unfold execute
  rw [bind_of_ok (note_run _ _ _ w), bind_of_ok hstart]
  rw [Workspace.Fails]
  cases houtcome : (w.response 0).outcome with
  | notStarted e =>
    obtain ⟨reason, hreason⟩ := reasonNotStarted_run (hran.opens hd) e
    refine .inr ⟨nofun, ?_⟩
    simp only [bind_of_ok hreason]
    exact ⟨_, _, rfl⟩
  | exited status output errors =>
    match status with
    | .ofNat 0 => exact .inl ⟨not_not.2 rfl, rfl⟩
    | .ofNat (n + 1) | .negSucc n => exact .inr ⟨nofun, _, _, rfl⟩

theorem RunsOne.bind_pure (h : RunsOne x i a w w') (f : α → β) :
    RunsOne (x >>= fun a => pure (f a)) i (f a) w w' := by
  obtain ⟨hran, ⟨hok, h⟩ | ⟨hfail, failure, cause, h⟩⟩ := h
  · exact ⟨hran, .inl ⟨hok, bind_of_ok h _⟩⟩
  · exact ⟨hran, .inr ⟨hfail, failure, cause, bind_of_error h _⟩⟩

theorem RunsOne.of_eq {y : Work α} (h : RunsOne x i a w w') (he : y w = x w) :
    RunsOne y i a w w' := by
  rw [RunsOne, he]
  exact h

theorem hasNul_eq_false {command : List String} {directory : String} {captured : Bool}
    (hwords : ∀ word ∈ command, '\x00' ∉ word.toList) (hd : w.Opens (.ofString directory) l) :
    Program.Invocation.hasNul ⟨command, directory, captured⟩ = false := by
  rw [Program.Invocation.hasNul, List.any_eq_false]
  refine List.forall_mem_cons.2 ⟨?_, fun word hword => by simpa using hwords word hword⟩
  simpa using Path.nul_not_mem_of_ofString hd.1.1

theorem run_runsOne {command : List String} {directory : String} {captured : Bool}
    (hn : Program.Invocation.hasNul ⟨command, directory, captured⟩ = false)
    (hd : w.Opens (.ofString directory) l) :
    ∃ w', RunsOne (run command directory captured) ⟨command, directory, captured⟩ () w w' := by
  obtain ⟨w', h⟩ := execute_runsOne hn hd
  exact ⟨w', h.bind_pure fun _ => ()⟩

theorem run_of_nul {command : List String} {directory : String} {captured : Bool}
    (hn : Program.Invocation.hasNul ⟨command, directory, captured⟩ = true) (w : Workspace) :
    ∃ journal, run command directory captured w = .error .nulInCommand { w with journal } := by
  obtain ⟨journal, h⟩ := execute_of_nul hn w
  exact ⟨journal, bind_of_error h _⟩

/-- Where the failure of a program is noted the work goes on behind it in another way. -/
theorem RunsOne.orNoted (h : RunsOne x i a w w') (text : Program.Failure → String)
    (otherwise : Work α) : ∃ w'', w.Ran i w'' ∧ orOnProgramFailure x (fun failure => do
      note .warning .toolchain (text failure)
      otherwise) w = if w.Fails 0 then otherwise w'' else .ok a w'' := by
  obtain ⟨hran, ⟨hok, h⟩ | ⟨hfail, failure, cause, h⟩⟩ := h
  · refine ⟨w', hran, ?_⟩
    rw [if_neg hok]
    exact tryCatch_of_ok h _
  · refine ⟨{ w' with journal := w'.journal ++ [⟨.warning, .toolchain, text failure⟩] },
      hran.alike _, ?_⟩
    rw [if_pos hfail]
    exact tryCatch_of_error h _

def FailsByProgram (x : Work α) (w : Workspace) : Prop :=
  ∃ failure cause w', x w = .error (.program failure cause) w'

theorem not_failsByProgram {e : Failure} (h : x w = .error e w')
    (he : ∀ failure cause, e ≠ .program failure cause) : ¬ FailsByProgram x w := by
  rintro ⟨failure, cause, v, hp⟩
  rw [h] at hp
  exact he failure cause (EStateM.Result.error.inj hp).1

/-- One of the programs that work starts fails. -/
def StartsFailing (x : Work α) (w : Workspace) : Prop :=
  ∃ n, w.started.length + n < (left x w).started.length ∧ w.Fails n

/-- Work fails by a program if and only if one that it starts does. -/
def Propagates (x : Work α) (w : Workspace) : Prop :=
  FailsByProgram x w ↔ StartsFailing x w

theorem propagates_of_error {failure : Program.Failure} {cause : Option SystemError} {n : Nat}
    (h : x w = .error (.program failure cause) w') (hn : w.started.length + n < w'.started.length)
    (hf : w.Fails n) : Propagates x w := by
  refine iff_of_true ⟨failure, cause, w', h⟩ ⟨n, ?_, hf⟩
  rwa [left_of_error h]

theorem propagates_of_not (h : ¬ FailsByProgram x w)
    (hok : ∀ n, w.started.length + n < (left x w).started.length → ¬ w.Fails n) : Propagates x w :=
  iff_of_false h fun ⟨n, hn, hf⟩ => hok n hn hf

theorem propagates_of_ok (h : x w = .ok a w')
    (hok : ∀ n, w.started.length + n < w'.started.length → ¬ w.Fails n) : Propagates x w := by
  refine propagates_of_not ?_ (by rwa [left_of_ok h])
  rintro ⟨failure, cause, v, he⟩
  rw [h] at he
  cases he

/-- Where a command cannot be passed on no program is started, and none fails. -/
theorem propagates_of_nul {journal : List Journal.Entry}
    (h : x w = .error .nulInCommand { w with journal }) : Propagates x w := by
  refine propagates_of_not (not_failsByProgram h nofun) fun n hn => ?_
  rw [left_of_error h] at hn
  exact absurd hn (Nat.not_lt.2 (Nat.le_add_right _ n))

theorem Propagates.of_eq {y : Work α} (h : Propagates x w) (he : y w = x w) : Propagates y w := by
  unfold Propagates FailsByProgram StartsFailing left at h ⊢
  rw [he]
  exact h

theorem RunsOne.propagates (h : RunsOne x i a w w') : Propagates x w := by
  obtain ⟨hran, ⟨hok, h⟩ | ⟨hfail, failure, cause, h⟩⟩ := h
  · refine propagates_of_ok h fun n hn => ?_
    rw [hran.started, List.length_append, List.length_singleton] at hn
    obtain rfl : n = 0 := by omega
    exact hok
  · refine propagates_of_error h ?_ hfail
    rw [hran.started, List.length_append, List.length_singleton]
    omega

theorem run_propagates {command : List String} {directory : String} {captured : Bool}
    (hd : w.Opens (.ofString directory) l) : Propagates (run command directory captured) w := by
  cases hn : Program.Invocation.hasNul ⟨command, directory, captured⟩ with
  | true =>
    obtain ⟨journal, h⟩ := run_of_nul hn w
    exact propagates_of_nul h
  | false =>
    obtain ⟨w', h⟩ := run_runsOne hn hd
    exact h.propagates

end Work
end ApiScaffold
