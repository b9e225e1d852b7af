import ApiScaffold.Proofs.Workspace.Outcome
import ApiScaffold.Toolchain

/-! Work that starts programs. Where the programs write files in a region only, all other files are
kept, however the work ends; if they write no files it leaves the tree as it is. -/
namespace ApiScaffold
open FileTree

/-- The programs still to be started write no files. -/
def Workspace.Silent (w : Workspace) : Prop :=
  ∀ response ∈ w.script, response.writes = []

/-- The files that the programs still to be started write are in a region. -/
def Workspace.Writes (w : Workspace) (region : Location → Prop) : Prop :=
  ∀ response ∈ w.script, ∀ f ∈ response.writes, region (placeOf w.place f.1)

/-- What is left where programs write files in a region only: besides those, directories above
them are new. -/
structure Workspace.Keeps (region : Location → Prop) (w w' : Workspace) : Prop where
  place : w'.place = w.place
  cargo : w'.cargo = w.cargo
  script : w'.script <:+ w.script
  tree : Grows (fun l => ∃ r, region (l ++ r)) region w.tree w'.tree

section
variable {region : Location → Prop} {w w' w'' : Workspace}

theorem Workspace.Keeps.refl (region : Location → Prop) (w : Workspace) : w.Keeps region w :=
  ⟨rfl, rfl, List.suffix_rfl, .refl _ _ _⟩

theorem Workspace.Keeps.trans (h : w.Keeps region w') (h' : w'.Keeps region w'') :
    w.Keeps region w'' :=
  ⟨h'.place.trans h.place, h'.cargo.trans h.cargo, h'.script.trans h.script, h.tree.trans h'.tree⟩

theorem Workspace.Writes.keeps (hw : w.Writes region) (h : w.Keeps region w') :
    w'.Writes region := by
  intro response hr f hf
  rw [h.place]
  exact hw response (h.script.subset hr) f hf

theorem Workspace.Silent.writes (hw : w.Silent) : w.Writes fun _ => False := by
  intro response hr f hf
  rw [hw response hr] at hf
  cases hf

end

namespace FileTree
variable {made written region : Location → Prop} {t : FileTree} {place : Location} {p : Path}

theorem grows_of_attempt {step : Except Refusal FileTree}
    (h : ∀ t', step = .ok t' → Grows made written t t') :
    Grows made written t (step.toOption.getD t) := by
  cases step with
  | error e => exact .refl _ _ _
  | ok t' => exact h t' rfl

/-- A deposit makes directories above its place, and then the file if that can be. -/
theorem exists_above_deposit (t : FileTree) (place : Location) (p : Path) (content : ByteArray) :
    ∃ t', Grows (· <+: placeOf place p) (fun _ => False) t t' ∧ (t.deposit place p content = t' ∨
      t'.writeAt (placeOf place p) content = .ok (t.deposit place p content)) := by
  have hmake (above : List Location) (habove : ∀ l ∈ above, l <+: placeOf place p) (t : FileTree) :
      Grows (· <+: placeOf place p) (fun _ => False) t
        (above.foldl (fun t l => (t.makeDirectoryAt l).toOption.getD t) t) := by
    induction above generalizing t with
    | nil => exact .refl _ _ _
    | cons l above ih =>
      have hfirst : Grows (· <+: placeOf place p) (fun _ => False) t
          ((t.makeDirectoryAt l).toOption.getD t) :=
        grows_of_attempt fun t' ht => (grows_of_makeDirectoryAt ht).mono
          (fun k hk _ => hk ▸ habove l List.mem_cons_self) (fun _ h _ => h)
      exact hfirst.trans (ih (fun k hk => habove k (List.mem_cons_of_mem l hk)) _)
  refine ⟨_, hmake ((List.range (placeOf place p).length).map (placeOf place p).take)
    (fun l hl => ?_) t, ?_⟩
  · obtain ⟨n, -, rfl⟩ := List.mem_map.1 hl
    exact List.take_prefix _ _
  · rw [deposit, ← placeOf_eq]
    generalize List.foldl _ t _ = t'
    cases h : t'.writeAt (placeOf place p) content with
    | error r => exact .inl rfl
    | ok t'' => exact .inr rfl

theorem grows_of_deposit (h : region (placeOf place p)) (t : FileTree) (content : ByteArray) :
    Grows (fun l => ∃ r, region (l ++ r)) region t (t.deposit place p content) := by
  obtain ⟨t', hgrows, hfile⟩ := exists_above_deposit t place p content
  have habove : Grows (fun l => ∃ r, region (l ++ r)) region t t' := by
    refine hgrows.mono (fun l hl _ => ?_) (fun _ h _ => h.elim)
    obtain ⟨r, hr⟩ := hl
    exact ⟨r, by rwa [hr]⟩
  rcases hfile with he | hw
  · rwa [he]
  · exact habove.trans ((grows_of_writeAt hw).mono (fun _ h _ => h.elim) fun k hk _ => by rwa [hk])

theorem grows_of_deposits {writes : List (Path × ByteArray)}
    (h : ∀ f ∈ writes, region (placeOf place f.1))
    (t : FileTree) : Grows (fun l => ∃ r, region (l ++ r)) region t
      (writes.foldl (fun t f => t.deposit place f.1 f.2) t) := by
  induction writes generalizing t with
  | nil => exact .refl _ _ _
  | cons f writes ih =>
    exact (grows_of_deposit (h f List.mem_cons_self) t f.2).trans
      (ih (fun g hg => h g (List.mem_cons_of_mem f hg)) _)

/-- Where a deposit changes anything a directory is made, or the file is written. -/
theorem get?_deposit (t : FileTree) (place : Location) (p : Path)
    (content : ByteArray) (k : Location) : (t.deposit place p content).get? k = t.get? k ∨
    (t.deposit place p content).get? k = some .directory ∨
      placeOf place p = k ∧ (t.deposit place p content).get? k = some (.file content) := by
  obtain ⟨t', hgrows, hfile⟩ := exists_above_deposit t place p content
  have habove : t'.get? k = t.get? k ∨ t'.get? k = some .directory := by
    rcases hgrows k with h | ⟨-, -, h⟩ | ⟨h, -⟩
    · exact .inl h
    · exact .inr h
    · exact h.elim
  rcases hfile with he | hw
  · rw [he]
    exact habove.imp_right .inl
  · rw [get?_of_writeAt hw]
    split
    · exact .inr (.inr ⟨‹_›, rfl⟩)
    · exact habove.imp_right .inl

end FileTree

namespace Work
variable {α β : Type} {region : Location → Prop} {w w' : Workspace} {a : α}

/-- Work that makes no files but those that programs write, as long as these write in a region
only. -/
def Still (region : Location → Prop) (x : Work α) : Prop :=
  ∀ w : Workspace, w.Writes region → w.Keeps region (left x w)

theorem Still.keeps_of_ok {x : Work α} (hx : Still region x) (hw : w.Writes region)
    (h : x w = .ok a w') : w.Keeps region w' :=
  left_of_ok h ▸ hx w hw

theorem Still.eq_of_ok {x : Work α} (hx : Still (fun _ => False) x) (hw : w.Silent)
    (h : x w = .ok a w') : w'.tree = w.tree := by
  ext l
  rw [(hx.keeps_of_ok hw.writes h).tree.eq_of_not (by simp) id]

theorem still_of_left {x : Work α} (h : ∀ w, left x w = w) : Still region x := by
  intro w _
  rw [h]
  exact .refl region w

theorem still_pure (a : α) : Still region (pure a : Work α) :=
  still_of_left fun _ => rfl

theorem still_throw (e : Failure) : Still region (throw e : Work α) :=
  still_of_left fun _ => rfl

theorem Still.bind {x : Work α} {f : α → Work β} (hx : Still region x)
    (hf : ∀ a, Still region (f a)) : Still region (x >>= f) := by
  intro w hw
  have hfirst := hx w hw
  cases h : x w with
  | ok a w₁ =>
    rw [left_of_ok h] at hfirst
    rw [left_bind_of_ok h]
    exact hfirst.trans (hf a w₁ (hw.keeps hfirst))
  | error e w₁ =>
    rw [left_of_error h] at hfirst
    rw [left_of_error (bind_of_error h f)]
    exact hfirst

theorem Still.tryCatch {x : Work α} {f : Failure → Work α} (hx : Still region x)
    (hf : ∀ e, Still region (f e)) : Still region (tryCatch x f) := by
  intro w hw
  have hfirst := hx w hw
  cases h : x w with
  | ok a w₁ =>
    rw [left_of_ok h] at hfirst
    rw [left_of_ok (tryCatch_of_ok h f)]
    exact hfirst
  | error e w₁ =>
    rw [left_of_error h] at hfirst
    rw [left_tryCatch_of_error h]
    exact hfirst.trans (hf e w₁ (hw.keeps hfirst))

theorem still_note (level : Journal.Level) (topic : Journal.Topic) (text : String) :
    Still region (note level topic text) :=
  fun _ _ => ⟨rfl, rfl, List.suffix_rfl, .refl _ _ _⟩

theorem still_look (p : Path) (f : FileTree → Location → Path → Except Refusal α) :
    Still region (look p f) := by
  refine still_of_left fun w => ?_
  cases h : look p f w with
  | ok a w' =>
    rw [left_of_ok h]
    exact (look_eq_ok h).1
  | error e w' =>
    rw [left_of_error h]
    exact look_error h

theorem still_isDirectory (p : Path) : Still region (isDirectory p) := by
  refine Still.bind ?_ fun _ => still_pure _
  unfold status
  split
  · exact still_pure _
  · exact still_look p _

/-- With NUL in a word nothing is started. -/
theorem start_of_nul {i : Program.Invocation} (hn : i.hasNul = true) (w : Workspace) :
    start i w = .error .nulInCommand w := by
  unfold start
  rw [if_pos hn]
  rfl

theorem start_of_words {i : Program.Invocation} (hn : i.hasNul = false) (w : Workspace) :
    start i w = .ok (w.script.head?.getD .quiet).outcome { w with
      started := w.started ++ [i]
      script := w.script.tail
      tree := (w.script.head?.getD .quiet).writes.foldl
        (fun t (p, content) => t.deposit w.place p content) w.tree } := by
  unfold start
  rw [if_neg (by simp [hn])]
  rfl

theorem still_start (i : Program.Invocation) : Still region (start i) := by
  intro w hw
  cases hn : i.hasNul with
  | true =>
    rw [left_of_error (start_of_nul hn w)]
    exact .refl region w
  | false =>
    rw [left_of_ok (start_of_words hn w)]
    have hwrites : ∀ f ∈ (w.script.head?.getD .quiet).writes, region (placeOf w.place f.1) := by
      cases hs : w.script with
      | nil => exact fun f hf => by cases hf
      | cons response rest => exact hw response (by rw [hs]; exact List.mem_cons_self)
    exact ⟨rfl, rfl, List.tail_suffix _, grows_of_deposits hwrites _⟩

theorem still_during {e : SystemError} {work : Work α} (h : Still region work) :
    Still region (during e work) := by
  refine h.tryCatch fun f => ?_
  cases f <;> exact still_throw _

theorem still_reasonNotStarted (directory : String) (e : SystemError) :
    Still region (reasonNotStarted directory e) := by
  unfold reasonNotStarted
  split
  · refine (still_isDirectory _).bind fun found => ?_
    cases found <;> exact still_pure _
  · exact still_pure _

theorem still_execute (i : Program.Invocation) : Still region (execute i) := by
  refine (still_note _ _ _).bind fun _ => (still_start i).bind fun outcome => ?_
  split
  · exact (still_during (still_reasonNotStarted _ _)).bind fun _ => still_throw _
  · exact still_pure _
  · exact still_throw _

theorem still_run (command : List String) (directory : String) (captured : Bool) :
    Still region (run command directory captured) :=
  (still_execute _).bind fun _ => still_pure _

theorem still_orOnProgramFailure {work : Work α} {otherwise : Program.Failure → Work α}
    (h : Still region work) (hother : ∀ failure, Still region (otherwise failure)) :
    Still region (orOnProgramFailure work otherwise) := by
  refine h.tryCatch fun f => ?_
  cases f with
  | program failure cause => exact hother failure
  | _ => exact still_throw _

end Work

namespace Toolchain
open Work
variable {region : Location → Prop}

theorem still_versionStep (project : Path) (command : List String) :
    Still region (versionStep project command) :=
  still_orOnProgramFailure ((still_run _ _ _).bind fun _ => still_pure _) fun _ =>
    (still_note _ _ _).bind fun _ => still_pure _

/-- Version control makes no files but those that its programs write. -/
theorem still_initGit (project : Path) (settings : Settings) :
    Still region (initGit project (some settings)) := by
  have habsolute : Still region (absolute project) := by
    unfold absolute
    split
    · exact (still_throw _).bind fun _ => still_of_left fun _ => rfl
    · exact still_of_left fun _ => rfl
  have hopen : Still region (openProject project (some settings)) :=
    habsolute.bind fun _ => (still_pure settings).bind fun _ => still_pure _
  refine hopen.bind fun opened => ?_
  exact (still_versionStep _ _).bind fun _ => (still_versionStep _ _).bind fun _ =>
    (still_versionStep _ _).bind fun _ => still_pure _

end Toolchain
end ApiScaffold
