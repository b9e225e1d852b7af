import ApiScaffold.Proofs.Workspace.Directories

/-! Confined work: for one who stands at a place it makes directories in one region and files in
another and changes nothing else, however it ends. Making a directory is confined to the way there,
writing a file to its place. -/
namespace ApiScaffold.Work
open FileTree
variable {α β : Type} {w w' : Workspace} {place : Location} {made written : Location → Prop}

/-- However work ends, directories have been made in one region and files in another, and that is
all. -/
def Confined (place : Location) (made written : Location → Prop) (x : Work α) : Prop :=
  ∀ w : Workspace, w.place = place → w.Beside (left x w) ∧ Grows made written w.tree (left x w).tree

theorem Confined.of_ok {x : Work α} {a : α} (hx : Confined place made written x)
    (hw : w.place = place) (h : x w = .ok a w') : w.Beside w' ∧ Grows made written w.tree w'.tree :=
  left_of_ok h ▸ hx w hw

theorem Confined.of_error {x : Work α} {e : Failure}
    (hx : Confined place made written x) (hw : w.place = place)
    (h : x w = .error e w') : w.Beside w' ∧ Grows made written w.tree w'.tree :=
  left_of_error h ▸ hx w hw

theorem Confined.mono {made' written' : Location → Prop}
    {x : Work α} (hx : Confined place made written x)
    (hm : ∀ l, made l → made' l) (hw : ∀ l, written l → written' l) :
    Confined place made' written' x := by
  intro w hplace
  obtain ⟨hb, hg⟩ := hx w hplace
  exact ⟨hb, hg.mono (fun l h _ => hm l h) fun l h _ => hw l h⟩

theorem confined_of_left {x : Work α} (h : ∀ w, (left x w).tree = w.tree ∧ w.Beside (left x w)) :
    Confined place made written x := by
  intro w _
  obtain ⟨htree, hb⟩ := h w
  rw [htree]
  exact ⟨hb, .refl _ _ _⟩

theorem confined_pure (a : α) : Confined place made written (pure a : Work α) :=
  confined_of_left fun w => ⟨rfl, .refl w⟩

theorem confined_throw (e : Failure) : Confined place made written (throw e : Work α) :=
  confined_of_left fun w => ⟨rfl, .refl w⟩

theorem confined_note (level : Journal.Level) (topic : Journal.Topic) (text : String) :
    Confined place made written (note level topic text) :=
  confined_of_left fun _ => ⟨rfl, _, _, rfl⟩

theorem confined_look (p : Path) (f : FileTree → Location → Path → Except Refusal α) :
    Confined place made written (look p f) := by
  refine confined_of_left fun w => ?_
  have hleft : left (look p f) w = w := by
    cases h : look p f w with
    | ok a w₁ =>
      rw [left_of_ok h]
      exact (look_eq_ok h).1
    | error e w₁ =>
      rw [left_of_error h]
      exact look_error h
  rw [hleft]
  exact ⟨rfl, .refl w⟩

theorem Confined.bind {x : Work α} {f : α → Work β} (hx : Confined place made written x)
    (hf : ∀ a, Confined place made written (f a)) : Confined place made written (x >>= f) := by
  intro w hplace
  cases h : x w with
  | ok a w₁ =>
    obtain ⟨hb, hg⟩ := hx.of_ok hplace h
    obtain ⟨hb', hg'⟩ := hf a w₁ (hb.place.trans hplace)
    rw [left_bind_of_ok h]
    exact ⟨hb.trans hb', hg.trans hg'⟩
  | error e w₁ =>
    rw [left_of_error (bind_of_error h f)]
    exact hx.of_error hplace h

theorem Confined.tryCatch {x : Work α} {f : Failure → Work α} (hx : Confined place made written x)
    (hf : ∀ e, Confined place made written (f e)) : Confined place made written (tryCatch x f) := by
  intro w hplace
  cases h : x w with
  | ok a w₁ =>
    rw [left_of_ok (tryCatch_of_ok h f)]
    exact hx.of_ok hplace h
  | error e w₁ =>
    obtain ⟨hb, hg⟩ := hx.of_error hplace h
    obtain ⟨hb', hg'⟩ := hf e w₁ (hb.place.trans hplace)
    rw [left_tryCatch_of_error h]
    exact ⟨hb.trans hb', hg.trans hg'⟩

theorem Confined.mapM {f : α → Work β} {as : List α}
    (h : ∀ a ∈ as, Confined place made written (f a)) :
    Confined place made written (as.mapM f) := by
  induction as with
  | nil => exact confined_pure _
  | cons a as ih =>
    rw [List.mapM_cons]
    apply (h a List.mem_cons_self).bind
    intro b
    exact (ih fun c hc => h c (List.mem_cons_of_mem a hc)).bind fun bs => confined_pure _

theorem Confined.during {e : SystemError} {x : Work α} (hx : Confined place made written x) :
    Confined place made written (during e x) := by
  apply hx.tryCatch
  intro f
  cases f <;> exact confined_throw _

theorem confined_isDirectory (p : Path) : Confined place made written (isDirectory p) := by
  have hstatus : Confined place made written (status p) := by
    unfold status
    split
    · exact confined_pure _
    · exact confined_look p _
  exact hstatus.bind fun _ => confined_pure _

theorem confined_tryMakeDirectory (p : Path) (hmade : made (placeOf place p)) :
    Confined place made written (tryMakeDirectory p) := by
  intro w hplace
  by_cases hn : p.hasNul
  · have herror : tryMakeDirectory p w = .error .nulInPath w := by
      unfold tryMakeDirectory
      rw [if_pos hn]
      rfl
    rw [left_of_error herror]
    exact ⟨.refl w, .refl _ _ _⟩
  · have hrun := tryMakeDirectory_run (w := w) (by simpa using hn)
    cases hm : w.tree.makeDirectory w.place p with
    | ok t =>
      rw [hm] at hrun
      obtain ⟨-, l, t', hr, ht, hw⟩ := tryMakeDirectory_eq_ok hrun
      rw [left_of_ok hrun, hw]
      have hl : l = placeOf place p := hplace ▸ hr.eq
      refine ⟨⟨_, _, rfl⟩,
        (grows_of_makeDirectoryAt ht).mono (fun k hk _ => ?_) fun _ hno _ => hno.elim⟩
      exact (hk.trans hl) ▸ hmade
    | error r =>
      rw [hm] at hrun
      rw [left_of_ok hrun]
      exact ⟨.refl w, .refl _ _ _⟩

theorem confined_acceptExisting (existing : Bool) (r : Refusal) (p : Path) :
    Confined place made written (acceptExisting existing r p) := by
  have hrefuse : Confined place made written (refuse r p : Work Unit) := confined_throw _
  unfold acceptExisting
  split
  · apply (confined_isDirectory p).during.bind
    intro b
    cases b with
    | true => exact confined_pure _
    | false => exact hrefuse
  · exact hrefuse

theorem confined_makeLast (existing : Bool) (p : Path) (hmade : made (placeOf place p)) :
    Confined place made written (makeLast existing p) := by
  apply (confined_tryMakeDirectory p hmade).bind
  intro r
  cases r with
  | none => exact confined_pure _
  | some r =>
    cases r with
    | missing => exact confined_throw _
    | «exists» | notDirectory | isDirectory | nameTooLong =>
      exact confined_acceptExisting existing _ p

/-- The places to which a path and its parts lead if nothing is in the way. -/
def Along (place : Location) (p : Path) (l : Location) : Prop :=
  ∃ names, names <+: p.names ∧ l = placeOf place ⟨p.base, names⟩

theorem along_self (place : Location) (p : Path) : Along place p (placeOf place p) :=
  ⟨p.names, List.prefix_rfl, rfl⟩

theorem Along.above {base : Path.Base} {names : List String}
    {l : Location} (h : Along place ⟨base, names⟩ l)
    (more : List String) : Along place ⟨base, names ++ more⟩ l := by
  obtain ⟨ns, hns, hl⟩ := h
  exact ⟨ns, hns.trans (List.prefix_append names more), hl⟩

theorem confined_makeAll (base : Path.Base) (existing : Bool) (names : List String) :
    Confined place (Along place ⟨base, names.reverse⟩) written (makeAll base existing names) := by
  induction names generalizing existing with
  | nil => exact confined_makeLast existing _ (along_self place _)
  | cons name above ih =>
    have hself := along_self place ⟨base, (name :: above).reverse⟩
    rw [makeAll]
    apply (confined_tryMakeDirectory _ hself).bind
    intro r
    cases r with
    | none => exact confined_pure _
    | some r =>
      cases r with
      | missing =>
        have habove := (ih true).mono (fun l hl => hl.above [name]) fun l hl => hl
        rw [← List.reverse_cons] at habove
        exact (habove.bind fun _ => confined_makeLast existing _ hself).during
      | «exists» | notDirectory | isDirectory | nameTooLong =>
        exact confined_acceptExisting existing _ _

theorem confined_ensureDirectory (p : Path) :
    Confined place (Along place p) written (ensureDirectory p) := by
  have hall : Confined place _ written _ := confined_makeAll p.base true p.names.reverse
  rwa [List.reverse_reverse] at hall

theorem confined_writeText (p : Path) (s : String) (hwritten : written (placeOf place p)) :
    Confined place made written (writeText p s) := by
  intro w hplace
  cases h : writeText p s w with
  | ok u w₁ =>
    obtain ⟨l, t, hr, ht, rfl⟩ := writeText_eq_ok h
    rw [left_of_ok h]
    have hl : l = placeOf place p := hplace ▸ hr.eq
    refine ⟨⟨_, _, rfl⟩, (grows_of_writeAt ht).mono (fun _ hno _ => hno.elim) fun k hk _ => ?_⟩
    exact (hk.trans hl) ▸ hwritten
  | error e w₁ =>
    rw [left_of_error h, writeText_error h]
    exact ⟨.refl w, .refl _ _ _⟩

end ApiScaffold.Work
