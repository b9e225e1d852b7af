import ApiScaffold.Proofs.FileTree.Growth
import ApiScaffold.Workspace.Directories

/-! Work step by step: how pieces of work put together end, what reading and writing along a path
do, and work that makes the tree grow however it ends. -/
namespace ApiScaffold

/-- A workspace that differs from another in its tree and its journal only. -/
def Workspace.Beside (w w' : Workspace) : Prop :=
  ∃ tree journal, w' = { w with tree, journal }

theorem Workspace.Beside.refl (w : Workspace) : w.Beside w :=
  ⟨w.tree, w.journal, rfl⟩

theorem Workspace.Beside.trans {w w' w'' : Workspace} (h : w.Beside w') (h' : w'.Beside w'') :
    w.Beside w'' := by
  obtain ⟨t, j, rfl⟩ := h
  obtain ⟨t', j', rfl⟩ := h'
  exact ⟨t', j', rfl⟩

theorem Workspace.Beside.place {w w' : Workspace} (h : w.Beside w') : w'.place = w.place := by
  obtain ⟨t, j, rfl⟩ := h
  rfl

theorem Workspace.Beside.clock {w w' : Workspace} (h : w.Beside w') : w'.clock = w.clock := by
  obtain ⟨t, j, rfl⟩ := h
  rfl

/-- A path leads to a place. -/
def Workspace.Reaches (w : Workspace) (p : Path) (l : Location) : Prop :=
  p.hasNul = false ∧ w.tree.locate w.place p = .ok l

theorem Workspace.Reaches.eq {w : Workspace} {p : Path} {l : Location} (h : w.Reaches p l) :
    l = FileTree.placeOf w.place p :=
  FileTree.locate_eq_ok h.2

theorem Workspace.Reaches.grows {w w' : Workspace}
    {p : Path} {l : Location} {made written : Location → Prop}
    (h : w.Reaches p l) (hb : w.Beside w') (hg : FileTree.Grows made written w.tree w'.tree) :
    w'.Reaches p l :=
  ⟨h.1, by rw [hb.place]; exact hg.locate h.2⟩

def Workspace.bare : Workspace where
  tree := ∅
  place := []
  cargo := none
  clock := ⟨1, 1, 1, 0, 0, 0⟩
  script := []
  started := []
  journal := []

namespace Work
variable {α β : Type} {w w' : Workspace}

theorem bind_of_ok {x : Work α} {a : α} (h : x w = .ok a w') (f : α → Work β) :
    (x >>= f) w = f a w' := by
  change EStateM.bind x f w = _
  rw [EStateM.bind, h]

theorem bind_run {x : Work α} {f : α → Work β} {a : α} {w₁ : Workspace} (h : x w = .ok a w₁)
    (hf : ∃ b w', f a w₁ = .ok b w') : ∃ b w', (x >>= f) w = .ok b w' := by
  rw [bind_of_ok h]
  exact hf

theorem bind_of_error {x : Work α} {e : Failure} (h : x w = .error e w') (f : α → Work β) :
    (x >>= f) w = .error e w' := by
  change EStateM.bind x f w = _
  rw [EStateM.bind, h]

theorem get_ok (w : Workspace) : (get : Work Workspace) w = .ok w w := rfl

theorem bind_eq_ok_iff {x : Work α} {f : α → Work β} {b : β} :
    (x >>= f) w = .ok b w' ↔ ∃ a w₁, x w = .ok a w₁ ∧ f a w₁ = .ok b w' := by
  cases h : x w with
  | ok a w₁ => simp [bind_of_ok h]
  | error e w₁ => simp [bind_of_error h]

theorem mapM_cons_eq_ok_iff {f : α → Work β} {a : α} {as : List α} {bs : List β} :
    (a :: as).mapM f w = .ok bs w' ↔
      ∃ b w₁ bs', f a w = .ok b w₁ ∧ as.mapM f w₁ = .ok bs' w' ∧ bs = b :: bs' := by
  rw [List.mapM_cons, bind_eq_ok_iff]
  constructor
  · rintro ⟨b, w₁, hf, h⟩
    obtain ⟨bs', w₂, hm, hp⟩ := bind_eq_ok_iff.1 h
    obtain ⟨rfl, rfl⟩ := EStateM.Result.ok.inj hp
    exact ⟨b, w₁, bs', hf, hm, rfl⟩
  · rintro ⟨b, w₁, bs', hf, hm, rfl⟩
    exact ⟨b, w₁, hf, bind_of_ok hm _⟩

theorem discard_of_ok {x : Work α} {a : α} (h : x w = .ok a w') : discard x w = .ok () w' :=
  bind_of_ok h _

theorem discard_eq_ok_iff {x : Work α} : discard x w = .ok () w' ↔ ∃ a, x w = .ok a w' := by
  change (x >>= fun _ => (pure () : Work Unit)) w = _ ↔ _
  rw [bind_eq_ok_iff]
  constructor
  · rintro ⟨a, w₁, h, he⟩
    obtain ⟨-, rfl⟩ := EStateM.Result.ok.inj he
    exact ⟨a, h⟩
  · rintro ⟨a, h⟩
    exact ⟨a, w', h, rfl⟩

theorem tryCatch_of_ok {x : Work α} {a : α} (h : x w = .ok a w') (f : Failure → Work α) :
    tryCatch x f w = .ok a w' := by
  change EStateM.tryCatch x f w = _
  rw [EStateM.tryCatch, h]

/-- What was done before a failure is still there when it is dealt with. -/
theorem tryCatch_of_error {x : Work α} {e : Failure} (h : x w = .error e w')
    (f : Failure → Work α) :
    tryCatch x f w = f e w' := by
  change EStateM.tryCatch x f w = _
  rw [EStateM.tryCatch, h]
  rfl

/-- What work leaves, however it ends. -/
def left (x : Work α) (w : Workspace) : Workspace :=
  match x w with
  | .ok _ w' => w'
  | .error _ w' => w'

theorem left_of_ok {x : Work α} {a : α} (h : x w = .ok a w') : left x w = w' := by
  rw [left, h]

theorem left_of_error {x : Work α} {e : Failure} (h : x w = .error e w') : left x w = w' := by
  rw [left, h]

theorem left_bind_of_ok {x : Work α} {f : α → Work β} {a : α} (h : x w = .ok a w') :
    left (x >>= f) w = left (f a) w' := by
  rw [left, left, bind_of_ok h]

theorem left_tryCatch_of_error {x : Work α} {f : Failure → Work α} {e : Failure}
    (h : x w = .error e w') : left (tryCatch x f) w = left (f e) w' := by
  rw [left, left, tryCatch_of_error h]

theorem look_run (p : Path) (f : FileTree → Location → Path → Except Refusal α) (w : Workspace) :
    look p f w = if p.hasNul then .error .nulInPath w else
      match f w.tree w.place p with
      | .ok a => .ok a w
      | .error r => .error (.system (r.error p) []) w := by
  unfold look
  by_cases h : p.hasNul
  · rw [if_pos h, if_pos h]
    rfl
  · rw [if_neg h, if_neg h]
    change (match f w.tree w.place p with
      | .ok a => (pure a : Work α)
      | .error r => refuse r p) w = _
    cases f w.tree w.place p <;> rfl

theorem look_of_ok {p : Path} {f : FileTree → Location → Path → Except Refusal α} {a : α}
    (hp : p.hasNul = false) (h : f w.tree w.place p = .ok a) : look p f w = .ok a w := by
  rw [look_run, if_neg (by simp [hp]), h]

theorem look_eq_ok {p : Path} {f : FileTree → Location → Path → Except Refusal α} {a : α}
    (h : look p f w = .ok a w') : w' = w ∧ p.hasNul = false ∧ f w.tree w.place p = .ok a := by
  rw [look_run] at h
  split at h
  · cases h
  · rename_i hp
    split at h
    · rename_i hf
      obtain ⟨rfl, rfl⟩ := EStateM.Result.ok.inj h
      exact ⟨rfl, by simpa using hp, hf⟩
    · cases h

theorem look_error {p : Path} {f : FileTree → Location → Path → Except Refusal α} {e : Failure}
    (h : look p f w = .error e w') : w' = w := by
  rw [look_run] at h
  split at h
  · exact (EStateM.Result.error.inj h).2.symm
  · split at h
    · cases h
    · exact (EStateM.Result.error.inj h).2.symm

theorem readBytes_eq_ok_iff {p : Path} {content : ByteArray} : readBytes p w = .ok content w' ↔
    w' = w ∧ ∃ l, w.Reaches p l ∧ w.tree.get? l = some (.file content) := by
  have hread (l : Location) (hl : w.tree.locate w.place p = .ok l) :
      w.tree.read w.place p = .ok content ↔ w.tree.get? l = some (.file content) := by
    simp only [FileTree.read, hl, bind, Except.bind]
    rcases w.tree.get? l with _ | _ | c <;> simp [pure, Except.pure, throw, throwThe,
      MonadExceptOf.throw]
  constructor
  · intro h
    obtain ⟨rfl, hn, hb⟩ := look_eq_ok h
    cases hl : w'.tree.locate w'.place p with
    | error r => simp [FileTree.read, hl, bind, Except.bind] at hb
    | ok l => exact ⟨rfl, l, ⟨hn, hl⟩, (hread l hl).1 hb⟩
  · rintro ⟨rfl, l, ⟨hn, hl⟩, hg⟩
    exact look_of_ok hn ((hread l hl).2 hg)

theorem readText_eq_ok_iff {p : Path} {s : String} : readText p w = .ok s w' ↔
    w' = w ∧ ∃ l, w.Reaches p l ∧ w.tree.get? l = some (.file (Text.encode s)) := by
  unfold readText
  rw [bind_eq_ok_iff]
  constructor
  · rintro ⟨content, w₁, hb, hd⟩
    obtain ⟨rfl, l, hr, hl⟩ := readBytes_eq_ok_iff.1 hb
    cases hs : Text.decode content with
    | error fault => simp only [hs] at hd; cases hd
    | ok s' =>
      simp only [hs] at hd
      obtain ⟨rfl, rfl⟩ := EStateM.Result.ok.inj hd
      exact ⟨rfl, l, hr, by rw [Text.encode_of_decode hs, hl]⟩
  · rintro ⟨rfl, l, hr, hl⟩
    refine ⟨Text.encode s, w', readBytes_eq_ok_iff.2 ⟨rfl, l, hr, hl⟩, ?_⟩
    rw [Text.decode_encode]
    rfl

theorem readText_of_refused {p : Path} {r : Refusal} (hn : p.hasNul = false)
    (h : w.tree.read w.place p = .error r) : readText p w = .error (.system (r.error p) []) w := by
  have hread : readBytes p w = .error (.system (r.error p) []) w := by
    unfold readBytes
    rw [look_run, if_neg (by simp [hn]), h]
  exact bind_of_error hread _

theorem readText_of_missing {p : Path} {l : Location}
    (hr : w.Reaches p l) (hl : w.tree.get? l = none) :
    readText p w = .error (.system (Refusal.missing.error p) []) w := by
  refine readText_of_refused hr.1 ?_
  simp only [FileTree.read, hr.2, bind, Except.bind, hl]
  rfl

theorem readText_of_directory {p : Path} {l : Location}
    (hr : w.Reaches p l) (hl : w.tree.get? l = some .directory) :
    readText p w = .error (.system (Refusal.isDirectory.error p) []) w := by
  refine readText_of_refused hr.1 ?_
  simp only [FileTree.read, hr.2, bind, Except.bind, hl]
  rfl

theorem readText_error {p : Path} {e : Failure} (h : readText p w = .error e w') : w' = w := by
  unfold readText readBytes at h
  cases hb : look p FileTree.read w with
  | error f w₁ =>
    rw [bind_of_error hb] at h
    rw [← (EStateM.Result.error.inj h).2]
    exact look_error hb
  | ok content w₁ =>
    obtain ⟨rfl, -, -⟩ := look_eq_ok hb
    rw [bind_of_ok hb] at h
    cases hs : Text.decode content with
    | ok s => simp only [hs] at h; cases h
    | error fault => simp only [hs] at h; exact (EStateM.Result.error.inj h).2.symm

theorem writeText_eq_ok {p : Path} {s : String} (h : writeText p s w = .ok () w') : ∃ l t,
    w.Reaches p l ∧ w.tree.writeAt l (Text.encode s) = .ok t ∧ w' = { w with tree := t } := by
  unfold writeText writeBytes at h
  obtain ⟨t, w₁, hl, hs⟩ := bind_eq_ok_iff.1 h
  obtain ⟨rfl, hn, hw⟩ := look_eq_ok hl
  obtain ⟨-, rfl⟩ := EStateM.Result.ok.inj hs
  unfold FileTree.write at hw
  cases hloc : w₁.tree.locate w₁.place p with
  | error r => simp [hloc, bind, Except.bind] at hw
  | ok l =>
    rw [hloc] at hw
    exact ⟨l, t, ⟨hn, hloc⟩, hw, rfl⟩

theorem writeText_error {p : Path} {s : String} {e : Failure}
    (h : writeText p s w = .error e w') : w' = w := by
  unfold writeText writeBytes at h
  cases hl : look p (fun t place p => t.write place p (Text.encode s)) w with
  | error f w₁ =>
    rw [bind_of_error hl] at h
    rw [← (EStateM.Result.error.inj h).2]
    exact look_error hl
  | ok t w₁ =>
    rw [bind_of_ok hl] at h
    cases h

theorem writeText_of_reaches {p : Path} {l : Location}
    (hr : w.Reaches p l) (hl : w.tree.get? l ≠ some .directory)
    (hd : w.tree.get? l.dropLast = some .directory) (s : String) :
    ∃ t, writeText p s w = .ok () { w with tree := t } ∧
      ∀ k, t.get? k = if l = k then some (.file (Text.encode s)) else w.tree.get? k := by
  obtain ⟨t, ht⟩ : ∃ t, w.tree.writeAt l (Text.encode s) = .ok t := by
    unfold FileTree.writeAt
    rw [dif_neg hl, dif_pos hd]
    exact ⟨_, rfl⟩
  refine ⟨t, ?_, fun k => FileTree.get?_of_writeAt ht⟩
  have hw : w.tree.write w.place p (Text.encode s) = .ok t := by
    unfold FileTree.write
    rw [hr.2]
    exact ht
  exact bind_of_ok (look_of_ok hr.1 hw) _

theorem readText_of_writeText {p : Path} {s : String} (h : writeText p s w = .ok () w') :
    readText p w' = .ok s w' := by
  obtain ⟨l, t, hr, ht, rfl⟩ := writeText_eq_ok h
  refine readText_eq_ok_iff.2 ⟨rfl, l,
    hr.grows ⟨t, w.journal, rfl⟩ (FileTree.grows_of_writeAt ht), ?_⟩
  simp [FileTree.get?_of_writeAt ht]

theorem absolute_run {p : Path} (hn : p.hasNul = false) :
    absolute p w = .ok (p.absolute w.place) w := by
  unfold absolute
  rw [if_neg (by simp [hn])]
  rfl

theorem absolute_eq_ok {p q : Path} (h : absolute p w = .ok q w') :
    w' = w ∧ p.hasNul = false ∧ q = p.absolute w.place := by
  unfold absolute at h
  by_cases hn : p.hasNul
  · rw [if_pos hn] at h
    cases h
  · rw [if_neg hn] at h
    obtain ⟨rfl, rfl⟩ := EStateM.Result.ok.inj h
    exact ⟨rfl, by simpa using hn, rfl⟩

theorem note_run (level : Journal.Level) (topic : Journal.Topic) (text : String) (w : Workspace) :
    note level topic text w = .ok () { w with journal := w.journal ++ [⟨level, topic, text⟩] } :=
  rfl

end Work
end ApiScaffold
