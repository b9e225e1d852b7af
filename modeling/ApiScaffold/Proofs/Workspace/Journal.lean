import ApiScaffold.Proofs.Workspace.Outcome

/-! The journal makes no difference: work on two workspaces that differ in nothing else ends
alike. -/
namespace ApiScaffold

def Workspace.Alike (w w' : Workspace) : Prop :=
  ∃ journal, w' = { w with journal }

theorem Workspace.Beside.alike {w w₁ w₂ : Workspace} (h₁ : w.Beside w₁) (h₂ : w.Beside w₂)
    (h : w₂.tree = w₁.tree) : w₁.Alike w₂ := by
  obtain ⟨t₁, j₁, rfl⟩ := h₁
  obtain ⟨t₂, j₂, rfl⟩ := h₂
  obtain rfl := h
  exact ⟨j₂, rfl⟩

namespace Work
variable {α β : Type} {w w' : Workspace}

def Agree : EStateM.Result Failure Workspace α → EStateM.Result Failure Workspace α → Prop
  | .ok a w, .ok b w' => a = b ∧ w.Alike w'
  | .error e w, .error f w' => e = f ∧ w.Alike w'
  | _, _ => False

/-- Work that takes no notice of the journal. -/
def Deaf (x : Work α) : Prop :=
  ∀ w w', w.Alike w' → Agree (x w) (x w')

theorem deaf_pure (a : α) : Deaf (pure a : Work α) :=
  fun _ _ h => ⟨rfl, h⟩

theorem deaf_throw (e : Failure) : Deaf (throw e : Work α) :=
  fun _ _ h => ⟨rfl, h⟩

theorem Deaf.bind {x : Work α} {f : α → Work β} (hx : Deaf x) (hf : ∀ a, Deaf (f a)) :
    Deaf (x >>= f) := by
  intro w w' h
  have hfirst := hx w w' h
  cases hw : x w with
  | ok a w₁ =>
    cases hw' : x w' with
    | ok b w₂ =>
      rw [hw, hw'] at hfirst
      obtain ⟨rfl, halike⟩ := hfirst
      rw [bind_of_ok hw, bind_of_ok hw']
      exact hf a w₁ w₂ halike
    | error e w₂ =>
      rw [hw, hw'] at hfirst
      exact hfirst.elim
  | error e w₁ =>
    cases hw' : x w' with
    | ok b w₂ =>
      rw [hw, hw'] at hfirst
      exact hfirst.elim
    | error f w₂ =>
      rw [hw, hw'] at hfirst
      rw [bind_of_error hw, bind_of_error hw']
      exact hfirst

theorem Deaf.tryCatch {x : Work α} {f : Failure → Work α} (hx : Deaf x) (hf : ∀ e, Deaf (f e)) :
    Deaf (tryCatch x f) := by
  intro w w' h
  have hfirst := hx w w' h
  cases hw : x w with
  | ok a w₁ =>
    cases hw' : x w' with
    | ok b w₂ =>
      rw [hw, hw'] at hfirst
      rw [tryCatch_of_ok hw, tryCatch_of_ok hw']
      exact hfirst
    | error e w₂ =>
      rw [hw, hw'] at hfirst
      exact hfirst.elim
  | error e w₁ =>
    cases hw' : x w' with
    | ok b w₂ =>
      rw [hw, hw'] at hfirst
      exact hfirst.elim
    | error f' w₂ =>
      rw [hw, hw'] at hfirst
      obtain ⟨rfl, halike⟩ := hfirst
      rw [tryCatch_of_error hw, tryCatch_of_error hw']
      exact hf e w₁ w₂ halike

theorem deaf_note (level : Journal.Level) (topic : Journal.Topic) (text : String) :
    Deaf (note level topic text) := by
  rintro w w' ⟨journal, rfl⟩
  exact ⟨rfl, _, rfl⟩

theorem deaf_look (p : Path) (f : FileTree → Location → Path → Except Refusal α) :
    Deaf (look p f) := by
  rintro w w' ⟨journal, rfl⟩
  rw [look_run, look_run]
  simp only
  split
  · exact ⟨rfl, journal, rfl⟩
  · split <;> exact ⟨rfl, journal, rfl⟩

theorem deaf_setTree (t : FileTree) : Deaf (setTree t) := by
  rintro w w' ⟨journal, rfl⟩
  exact ⟨rfl, journal, rfl⟩

theorem deaf_readText (p : Path) : Deaf (readText p) := by
  refine (deaf_look p _).bind fun content => ?_
  cases Text.decode content with
  | ok s => exact deaf_pure s
  | error fault => exact deaf_throw _

theorem deaf_writeText (p : Path) (s : String) : Deaf (writeText p s) :=
  (deaf_look p _).bind fun t => deaf_setTree t

end Work
end ApiScaffold
