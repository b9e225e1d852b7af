import ApiScaffold.Proofs.Registration.Place
import ApiScaffold.Proofs.Workspace.Failure
import ApiScaffold.Proofs.Workspace.Journal

/-! One registration in a route file: two lines are put at their places, or a marker is missing and
nothing is written. -/
namespace ApiScaffold.Route
variable {imports routes name : String} {s : List Char}

abbrev importAnchor (marker : String) : Anchor := ⟨marker, importEntry⟩

abbrev callAnchor (marker : String) : Anchor := ⟨marker, callEntry⟩

theorem insert_import (s : List Char) : (importAnchor imports).insert name s =
    match (importAnchor imports).place s with
    | none => .error (.markerMissing imports)
    | some p => .ok (Anchor.putAt p (importLine name)) :=
  Anchor.insert_eq (render_importEntry imports name) s

theorem insert_call (s : List Char) : (callAnchor routes).insert name s =
    match (callAnchor routes).place s with
    | none => .error (.markerMissing routes)
    | some p => .ok (Anchor.putAt p (callLine name)) :=
  Anchor.insert_eq (render_callEntry routes name) s

theorem register_of_missing (file name : String)
    (h : ¬ (imports.toList <:+: s ∧ routes.toList <:+: s)) :
    register file imports routes name s = .error (.markersMissing file imports routes) := by
  have hb : (!Text.occurs imports.toList s || !Text.occurs routes.toList s) = true := by
    rw [← Bool.not_and, Bool.not_eq_true', Bool.and_eq_false_iff, Text.occurs_eq_false_iff,
      Text.occurs_eq_false_iff]
    tauto
  unfold register
  rw [if_pos hb]
  rfl

/-- Where both markers occur, the import is inserted, and the call into the text so changed. -/
theorem register_of_occurs (file name : String)
    (hi : imports.toList <:+: s) (hr : routes.toList <:+: s) : register file imports routes name s =
      (importAnchor imports).insert name s >>= fun t => (callAnchor routes).insert name t := by
  have hb : ¬ (!Text.occurs imports.toList s || !Text.occurs routes.toList s) = true := by
    rw [Text.occurs_iff.2 hi, Text.occurs_iff.2 hr]
    simp
  unfold register
  rw [if_neg hb]

/-- The import is put at its place, and the call at its place in the text so changed. -/
theorem register_of_present {p : List Char × List Char} (file name : String)
    (hr : routes.toList <:+: s) (hp : (importAnchor imports).place s = some p) :
    register file imports routes name s =
      match (callAnchor routes).place (Anchor.putAt p (importLine name)) with
      | none => .error (.markerMissing routes)
      | some q => .ok (Anchor.putAt q (callLine name)) := by
  have hi := Anchor.marker_infix hp
  rw [register_of_occurs file name hi hr, insert_import, hp]
  exact insert_call _

theorem registerIn_of_error {w : Workspace} {file : Path} {s : String} {f : Failure}
    (hs : Work.readText file w = .ok s w)
    (hf : register file.name imports routes name s.toList = .error f) :
    registerIn file name imports routes w = .error f w := by
  unfold registerIn
  rw [Work.bind_of_ok hs, hf]
  rfl

theorem registerIn_of_ok {w : Workspace} {file : Path} {l : Location} {s : String} {t : List Char}
    (hr : w.Reaches file l) (hl : w.tree.get? l = some (.file (Text.encode s)))
    (ht : register file.name imports routes name s.toList = .ok t) :
    ∃ w', registerIn file name imports routes w = .ok (String.ofList t) w' ∧ w.Beside w' ∧
      (∀ k, w'.tree.get? k = if l = k then some (.file (Text.encode (String.ofList t)))
        else w.tree.get? k) ∧
      Work.readText file w' = .ok (String.ofList t) w' := by
  have hs : Work.readText file w = .ok s w := Work.readText_eq_ok_iff.2 ⟨rfl, l, hr, hl⟩
  obtain ⟨u, hw, hu⟩ :=
    Work.writeText_of_reaches hr (by simp [hl]) (FileTree.get?_dropLast hl) (String.ofList t)
  let entry : Journal.Entry := ⟨.debug, .registration, s!"Registered routes for '{name}' in {file}"⟩
  have hb : w.Beside { w with tree := u, journal := w.journal ++ [entry] } := ⟨u, _, rfl⟩
  refine ⟨{ w with tree := u, journal := w.journal ++ [entry] }, ?_, hb, hu, ?_⟩
  · unfold registerIn
    rw [Work.bind_of_ok hs, ht]
    change (Work.writeText file (String.ofList t) >>= _) w = _
    rw [Work.bind_of_ok hw]
    rfl
  · exact Work.readText_eq_ok_iff.2 ⟨rfl, l,
      hr.grows hb (FileTree.grows_of_get? (by simp [hl]) hu), by simp [hu]⟩

theorem grows_of_registerIn {w w' : Workspace} {file : Path} {t : String}
    (hp : FileTree.Fits w.place) (h : registerIn file name imports routes w = .ok t w') :
    w.Beside w' ∧ FileTree.Grows (fun _ => False)
      (fun k => FileTree.Fits k ∧ k = FileTree.placeOf w.place file) w.tree w'.tree := by
  unfold registerIn at h
  obtain ⟨s, w₁, hs, hrest⟩ := Work.bind_eq_ok_iff.1 h
  obtain ⟨rfl, -⟩ := Work.readText_eq_ok_iff.1 hs
  cases hreg : register file.name imports routes name s.toList with
  | error f => simp only [hreg] at hrest; cases hrest
  | ok u =>
    simp only [hreg] at hrest
    obtain ⟨v, w₂, hw, hnote⟩ := Work.bind_eq_ok_iff.1 hrest
    obtain ⟨x, w₃, hn, he⟩ := Work.bind_eq_ok_iff.1 hnote
    obtain ⟨rfl, rfl⟩ := EStateM.Result.ok.inj he
    rw [Work.note_run] at hn
    obtain ⟨-, rfl⟩ := EStateM.Result.ok.inj hn
    obtain ⟨l, tree, hr, ht, rfl⟩ := Work.writeText_eq_ok hw
    refine ⟨⟨tree, _, rfl⟩, (FileTree.grows_of_writeAt ht).mono (fun _ h _ => h) (fun j hj _ => ?_)⟩
    obtain rfl := hj
    exact ⟨hr.fits hp, hr.eq⟩

theorem registerIn_error {w w' : Workspace} {file : Path} {name imports routes : String}
    {e : Failure} (h : registerIn file name imports routes w = .error e w') : w' = w := by
  unfold registerIn at h
  rcases Work.bind_eq_error_iff.1 h with hread | ⟨s, w₁, hs, hrest⟩
  · exact Work.readText_error hread
  obtain ⟨rfl, -⟩ := Work.readText_eq_ok_iff.1 hs
  cases hreg : register file.name imports routes name s.toList with
  | error f =>
    simp only [hreg] at hrest
    exact (EStateM.Result.error.inj hrest).2.symm
  | ok t =>
    simp only [hreg] at hrest
    rcases Work.bind_eq_error_iff.1 hrest with hwrite | ⟨u, w₂, -, hnote⟩
    · rcases Work.bind_eq_error_iff.1 hwrite with hlook | ⟨u, w₂, -, hset⟩
      · exact Work.look_error hlook
      · cases hset
    · cases hnote

theorem deaf_registerIn (file : Path) (name imports routes : String) :
    Work.Deaf (registerIn file name imports routes) := by
  refine (Work.deaf_readText file).bind fun s => ?_
  cases register file.name imports routes name s.toList with
  | error e => exact Work.deaf_throw e
  | ok t => exact (Work.deaf_writeText file _).bind fun _ =>
    (Work.deaf_note _ _ _).bind fun _ => Work.deaf_pure _

theorem exists_routeFile (s : String) : ∃ w, Work.readText ⟨.here, ["route.rs"]⟩ w = .ok s w := by
  have hfit : FileTree.Fits ["route.rs"] := by
    unfold FileTree.Fits
    decide
  obtain ⟨w, hr, hl⟩ := Workspace.exists_file hfit s
  exact ⟨w, Work.readText_eq_ok_iff.2 ⟨rfl, _, hr, hl⟩⟩

end ApiScaffold.Route
