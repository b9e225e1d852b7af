import ApiScaffold.Proofs.Workspace.Directories
import ApiScaffold.Workspace.Programs

/-! How work fails. What fails only in some way does so whatever it works on, and work put
together fails as its steps do. Making directories and listing files never tells that something
else is missing. -/
namespace ApiScaffold.Work
variable {α β : Type} {w w' : Workspace} {kind kind' : Failure → Prop}

theorem bind_eq_error_iff {x : Work α} {f : α → Work β} {e : Failure} : (x >>= f) w = .error e w' ↔
    x w = .error e w' ∨ ∃ a w₁, x w = .ok a w₁ ∧ f a w₁ = .error e w' := by
  cases h : x w with
  | ok a w₁ => simp [bind_of_ok h]
  | error e₁ w₁ => simp [bind_of_error h]

theorem discard_eq_error {x : Work α} {e : Failure} (h : discard x w = .error e w') :
    x w = .error e w' := by
  rcases bind_eq_error_iff.1 h with h | ⟨a, w₁, -, h⟩
  · exact h
  · cases h

theorem mapM_eq_error {f : α → Work β} {as : List α} {e : Failure} (h : as.mapM f w = .error e w') :
    ∃ earlier a later bs w₁, as = earlier ++ a :: later ∧ earlier.mapM f w = .ok bs w₁ ∧
      f a w₁ = .error e w' := by
  induction as generalizing w with
  | nil => cases h
  | cons a as ih =>
    rw [List.mapM_cons] at h
    rcases bind_eq_error_iff.1 h with hf | ⟨b, w₁, hf, h⟩
    · exact ⟨[], a, as, [], w, rfl, rfl, hf⟩
    · rcases bind_eq_error_iff.1 h with hrest | ⟨bs, w₂, -, h⟩
      · obtain ⟨earlier, a', later, bs, w₂, rfl, hw₂, he⟩ := ih hrest
        exact ⟨a :: earlier, a', later, b :: bs, w₂, rfl,
          mapM_cons_eq_ok_iff.2 ⟨b, w₁, bs, hf, hw₂, rfl⟩, he⟩
      · cases h

theorem filterAuxM_eq_error {f : α → Work Bool} {as found : List α} {e : Failure}
    (h : as.filterAuxM f found w = .error e w') :
    ∃ earlier a later bs w₁, as = earlier ++ a :: later ∧ earlier.filterAuxM f found w = .ok bs w₁ ∧
      f a w₁ = .error e w' := by
  induction as generalizing w found with
  | nil => cases h
  | cons a as ih =>
    rw [List.filterAuxM] at h
    rcases bind_eq_error_iff.1 h with hf | ⟨b, w₁, hf, hrest⟩
    · exact ⟨[], a, as, found, w, rfl, rfl, hf⟩
    · obtain ⟨earlier, a', later, bs, w₂, rfl, hw₂, he⟩ := ih hrest
      exact ⟨a :: earlier, a', later, bs, w₂, rfl, (bind_of_ok hf _).trans hw₂, he⟩

theorem filterAuxM_forall {f : α → Work Bool} {as found bs : List α} {kind : α → Prop}
    (hkind : ∀ a w b w', f a w = .ok b w' → kind a) (h : as.filterAuxM f found w = .ok bs w') :
    ∀ a ∈ as, kind a := by
  induction as generalizing w found with
  | nil => simp
  | cons a as ih =>
    rw [List.filterAuxM] at h
    obtain ⟨b, w₁, hf, hrest⟩ := bind_eq_ok_iff.1 h
    exact List.forall_mem_cons.2 ⟨hkind a w b w₁ hf, ih hrest⟩

def FailsOnly (kind : Failure → Prop) (x : Work α) : Prop :=
  ∀ w e w', x w = .error e w' → kind e

theorem FailsOnly.mono {x : Work α} (hx : FailsOnly kind x) (h : ∀ e, kind e → kind' e) :
    FailsOnly kind' x :=
  fun w e w' he => h e (hx w e w' he)

theorem failsOnly_pure (a : α) : FailsOnly kind (pure a : Work α) :=
  fun _ _ _ h => by cases h

theorem failsOnly_throw {e : Failure} (h : kind e) : FailsOnly kind (throw e : Work α) := by
  intro w f w' hf
  obtain ⟨rfl, -⟩ := EStateM.Result.error.inj hf
  exact h

theorem FailsOnly.bind {x : Work α} {f : α → Work β} (hx : FailsOnly kind x)
    (hf : ∀ w a w', x w = .ok a w' → FailsOnly kind (f a)) : FailsOnly kind (x >>= f) := by
  intro w e w' h
  rcases bind_eq_error_iff.1 h with h | ⟨a, w₁, ha, h⟩
  · exact hx w e w' h
  · exact hf w a w₁ ha w₁ e w' h

theorem FailsOnly.tryCatch {x : Work α} {f : Failure → Work α} (hx : FailsOnly kind' x)
    (hf : ∀ e, kind' e → FailsOnly kind (f e)) : FailsOnly kind (tryCatch x f) := by
  intro w e w' h
  cases hw : x w with
  | ok a w₁ =>
    rw [tryCatch_of_ok hw] at h
    cases h
  | error e₁ w₁ =>
    rw [tryCatch_of_error hw] at h
    exact hf e₁ (hx w e₁ w₁ hw) w₁ e w' h

theorem FailsOnly.orOnProgramFailure {x : Work α} {otherwise : Program.Failure → Work α}
    (hx : FailsOnly (fun e => (∃ failure cause, e = .program failure cause) ∨ kind e) x)
    (hf : ∀ failure, FailsOnly kind (otherwise failure)) :
    FailsOnly kind (orOnProgramFailure x otherwise) := by
  refine hx.tryCatch fun e he => ?_
  rcases he with ⟨failure, cause, rfl⟩ | he
  · exact hf failure
  · cases e with
    | program failure cause => exact hf failure
    | _ => exact failsOnly_throw he

theorem FailsOnly.mapM {f : α → Work β} {as : List α} (h : ∀ a ∈ as, FailsOnly kind (f a)) :
    FailsOnly kind (as.mapM f) := by
  induction as with
  | nil => exact failsOnly_pure _
  | cons a as ih =>
    rw [List.mapM_cons]
    refine (h a List.mem_cons_self).bind fun _ _ _ _ => ?_
    exact (ih fun b hb => h b (List.mem_cons_of_mem a hb)).bind fun _ _ _ _ => failsOnly_pure _

theorem FailsOnly.filterAuxM {f : α → Work Bool} {as found : List α}
    (h : ∀ a ∈ as, FailsOnly kind (f a)) : FailsOnly kind (as.filterAuxM f found) := by
  induction as generalizing found with
  | nil => exact failsOnly_pure _
  | cons a as ih =>
    rw [List.filterAuxM]
    exact (h a List.mem_cons_self).bind fun _ _ _ _ =>
      ih fun b hb => h b (List.mem_cons_of_mem a hb)

theorem FailsOnly.filterM {f : α → Work Bool} {as : List α} (h : ∀ a ∈ as, FailsOnly kind (f a)) :
    FailsOnly kind (as.filterM f) :=
  (FailsOnly.filterAuxM h).bind fun _ _ _ _ => failsOnly_pure _

theorem failsOnly_note (level : Journal.Level) (topic : Journal.Topic) (text : String) :
    FailsOnly kind (note level topic text) :=
  fun _ _ _ h => by cases h

/-- Failures of the file system: of those that nothing else led to, only some paths are said
to be missing. -/
def Misses (paths : Path → Prop) : Failure → Prop
  | .nulInPath | .tooDeep => True
  | .system e during =>
    during = [] → e.number = Refusal.missing.number → ∃ p, paths p ∧ e = Refusal.missing.error p
  | _ => False

variable {paths paths' : Path → Prop} {p : Path}

theorem Misses.mono {e : Failure} (h : Misses paths e) (hp : ∀ p, paths p → paths' p) :
    Misses paths' e := by
  cases e with
  | system e during =>
    intro hd hn
    obtain ⟨p, hm, he⟩ := h hd hn
    exact ⟨p, hp p hm, he⟩
  | nulInPath | tooDeep => trivial
  | _ => exact h.elim

theorem failsOnly_refuse {r : Refusal} (h : r = .missing → paths p) :
    FailsOnly (Misses paths) (refuse r p : Work α) := by
  refine failsOnly_throw fun _ hn => ?_
  cases r with
  | missing => exact ⟨p, h rfl, rfl⟩
  | «exists» | notDirectory | isDirectory | nameTooLong => cases hn

theorem failsOnly_look (h : paths p) (f : FileTree → Location → Path → Except Refusal α) :
    FailsOnly (Misses paths) (look p f) := by
  intro w e w' he
  rw [look_run] at he
  split at he
  · obtain ⟨rfl, -⟩ := EStateM.Result.error.inj he
    trivial
  · split at he
    · cases he
    · exact failsOnly_refuse (α := α) (fun _ => h) w e w' he

theorem failsOnly_status (h : paths p) : FailsOnly (Misses paths) (status p) := by
  unfold status
  split
  · exact failsOnly_pure _
  · exact failsOnly_look h _

theorem failsOnly_isDirectory (h : paths p) : FailsOnly (Misses paths) (isDirectory p) :=
  (failsOnly_status h).bind fun _ _ _ _ => failsOnly_pure _

theorem failsOnly_writeText (h : paths p) (s : String) : FailsOnly (Misses paths) (writeText p s) :=
  (failsOnly_look h _).bind fun _ _ _ _ _ _ _ h => by cases h

theorem failsOnly_during {e : SystemError} {work : Work α} (h : FailsOnly (Misses paths) work) :
    FailsOnly (Misses paths') (during e work) := by
  refine h.tryCatch fun f hf => ?_
  cases f with
  | system later earlier => exact failsOnly_throw fun hd => by simp at hd
  | nulInPath | tooDeep => exact failsOnly_throw trivial
  | _ => exact hf.elim

theorem failsOnly_acceptExisting {existing : Bool} {r : Refusal} (h : r ≠ .missing) :
    FailsOnly (Misses paths) (acceptExisting existing r p) := by
  have hrefuse : FailsOnly (Misses paths) (refuse r p : Work Unit) :=
    failsOnly_refuse fun hr => absurd hr h
  unfold acceptExisting
  split
  · have hlook : FailsOnly (Misses fun _ => True) (isDirectory p) := failsOnly_isDirectory trivial
    refine (failsOnly_during hlook).bind fun _ b _ _ => ?_
    cases b with
    | true => exact failsOnly_pure _
    | false => exact hrefuse
  · exact hrefuse

theorem failsOnly_tryMakeDirectory : FailsOnly (Misses paths) (tryMakeDirectory p) := by
  intro w e w' h
  by_cases hn : p.hasNul
  · unfold tryMakeDirectory at h
    rw [if_pos hn] at h
    obtain ⟨rfl, -⟩ := EStateM.Result.error.inj h
    trivial
  · rw [tryMakeDirectory_run (by simpa using hn)] at h
    split at h <;> cases h

/-- The root is never missing, however it is spelled. -/
theorem tryMakeDirectory_base {base : Path.Base} (hb : base ≠ .here) {r : Option Refusal}
    (h : tryMakeDirectory ⟨base, []⟩ w = .ok r w') : r ≠ some .missing := by
  have hlocate : w.tree.locate w.place ⟨base, []⟩ = .ok [] := by
    cases base with
    | here => exact absurd rfl hb
    | root | doubleRoot =>
      rw [FileTree.locate, if_neg (by decide)]
      rfl
  rw [tryMakeDirectory_of_opens ⟨⟨rfl, hlocate⟩, w.tree.get?_root⟩] at h
  rw [← (EStateM.Result.ok.inj h).1]
  simp

theorem failsOnly_makeLast {existing : Bool}
    (h : ∀ w w', tryMakeDirectory p w = .ok (some .missing) w' → paths p) :
    FailsOnly (Misses paths) (makeLast existing p) := by
  refine failsOnly_tryMakeDirectory.bind fun w r w' hr => ?_
  cases r with
  | none => exact failsOnly_pure _
  | some r =>
    cases r with
    | missing => exact failsOnly_refuse fun _ => h w w' hr
    | «exists» | notDirectory | isDirectory | nameTooLong =>
      exact failsOnly_acceptExisting (by simp)

/-- Directories can be made or not, but none is said to be missing, or the one where
relative paths start. -/
theorem failsOnly_makeAll (base : Path.Base) {existing : Bool} (names : List String) :
    FailsOnly (Misses fun p => base = .here ∧ p = ⟨.here, []⟩) (makeAll base existing names) := by
  induction names generalizing existing with
  | nil =>
    refine failsOnly_makeLast fun w w' h => ?_
    by_cases hb : base = .here
    · exact ⟨hb, by rw [hb]⟩
    · exact absurd rfl (tryMakeDirectory_base hb h)
  | cons name above ih =>
    rw [makeAll]
    refine failsOnly_tryMakeDirectory.bind fun w r w' hr => ?_
    cases r with
    | none => exact failsOnly_pure _
    | some r =>
      cases r with
      | missing =>
        have habove : FailsOnly (Misses fun _ => True) (makeAll base true above) :=
          ih.mono fun e he => he.mono fun _ _ => trivial
        exact failsOnly_during (habove.bind fun _ _ _ _ => failsOnly_makeLast fun _ _ _ => trivial)
      | «exists» | notDirectory | isDirectory | nameTooLong =>
        exact failsOnly_acceptExisting (by simp)

/-- From the root no directory is said to be missing. -/
theorem failsOnly_ensureDirectory {names : List String} :
    FailsOnly (Misses paths) (ensureDirectory ⟨.root, names⟩) :=
  (failsOnly_makeAll .root _).mono fun _ he => he.mono fun _ h => by cases h.1

theorem failsOnly_ensureDirectory_of_here (h : paths ⟨.here, []⟩) :
    FailsOnly (Misses paths) (ensureDirectory p) :=
  (failsOnly_makeAll p.base _).mono fun _ he => he.mono fun _ hq => hq.2 ▸ h

/-- Paths that lead on from another. -/
def Onward (p q : Path) : Prop :=
  ∃ names, q = ⟨p.base, p.names ++ names⟩

theorem onward_self (p : Path) : Onward p p :=
  ⟨[], by simp⟩

theorem onward_of_filesBelow {found : List Path} {levels : Nat}
    (h : filesBelow p levels w = .ok found w') : ∀ q ∈ found, Onward p q := by
  obtain ⟨b, w₁, hb, hrest⟩ := bind_eq_ok_iff.1 h
  obtain ⟨rfl, hopens⟩ := isDirectory_eq_ok hb
  cases b with
  | false =>
    obtain ⟨rfl, -⟩ := EStateM.Result.ok.inj hrest
    simp
  | true =>
    obtain ⟨l, hl⟩ := hopens.1 rfl
    rw [filesBelow_of_opens hl fun _ => filesBelow_enters hl h] at h
    obtain ⟨rfl, -⟩ := EStateM.Result.ok.inj h
    intro q hq
    obtain ⟨⟨names, node⟩, -, he⟩ := List.mem_filterMap.1 hq
    cases node with
    | directory => cases he
    | file content => exact ⟨names, (Option.some.inj he).symm⟩

theorem failsOnly_filesBelow (p : Path) (levels : Nat) :
    FailsOnly (Misses paths) (filesBelow p levels) := by
  intro w e w' hf
  obtain ⟨-, ⟨rfl, -⟩ | ⟨q, rfl⟩⟩ := filesBelow_error hf
  · trivial
  · exact fun _ hn => by cases hn

end ApiScaffold.Work
