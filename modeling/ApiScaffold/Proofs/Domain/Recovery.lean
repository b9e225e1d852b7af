import ApiScaffold.Proofs.Domain.Contents

/-! Creations that fail for the sake of the route file. Such a creation leaves the registrations as
they were and adds the directory of the domain. Once the route file has been put right, a second
creation ends as if the route file had been right from the start. -/
namespace ApiScaffold.Domain
open FileTree Settings
variable {w w' : Workspace} {name : String} {project : Path} {root d : Location} {e : Failure}

/-- Failures for the sake of a route file: it is missing, it is no text, or it lacks a marker. -/
def RouteFailure (file : Path) (e : Failure) : Prop :=
  e = .system (Refusal.missing.error file) [] ∨ (∃ fault, e = .notText fault) ∨
    e = .markersMissing file.name ({} : Settings).markers.imports ({} : Settings).markers.routes

theorem RouteFailure.not_misses (h : RouteFailure ⟨.root, root ++ routeNames⟩ e) :
    ¬ Work.Misses (Work.Onward ⟨.root, root ++ rootNames⟩) e := by
  rcases h with rfl | ⟨fault, rfl⟩ | rfl
  · intro hm
    obtain ⟨p, ⟨names, rfl⟩, he⟩ := hm rfl rfl
    exact text_ne_route root names (Option.some.inj (congrArg SystemError.subject he)).symm
  · exact id
  · exact id

/-- A creation that fails for the sake of the route file has written the directory of the domain and
then failed to register the routes. -/
theorem registration_of_failure (hp : placeOf w.place project = root)
    (hs : '/' ∉ name.toList) (hdot : name ≠ ".") (he : RouteFailure ⟨.root, root ++ routeNames⟩ e)
    (h : create name project Template.domain (some {}) w = .error e w') :
    name ≠ "" ∧ project.hasNul = false ∧ ∃ w₁ w₂ files rewritten,
      Work.ensureDirectory ⟨.root, root ++ rootNames ++ [name]⟩ w = .ok () w₁ ∧
        Template.domain.extract ⟨.root, root ++ rootNames ++ [name]⟩ w₁ = .ok files w₂ ∧
        Placeholder.replaceBelow ⟨.root, root ++ rootNames ++ [name]⟩
          nameToken name Work.usualLevels w₂ = .ok rewritten w' ∧
        Route.registerIn ⟨.root, root ++ routeNames⟩ name ({} : Settings).markers.imports
          ({} : Settings).markers.routes w' = .error e w' := by
  have hno := he.not_misses
  have hbelow : ¬ Work.Misses (Work.Onward ⟨.root, root ++ rootNames ++ [name]⟩) e := by
    refine fun hm => hno (hm.mono ?_)
    rintro p ⟨names, rfl⟩
    exact ⟨[name] ++ names, by simp⟩
  have hneither (hrefused : e = .empty .domainName ∨ e = .nulInPath) : False := by
    rcases hrefused with rfl | rfl
    · rcases he with he | ⟨fault, he⟩ | he <;> cases he
    · exact hno trivial
  obtain ⟨hname, hnul⟩ : name ≠ "" ∧ project.hasNul = false := by
    rcases create_refused_or name project Template.domain (some {}) w with hrefused |
      hrefused | hgets
    · exact (hneither (.inl (EStateM.Result.error.inj (h.symm.trans hrefused)).1)).elim
    · exact (hneither (.inr (EStateM.Result.error.inj (h.symm.trans hrefused)).1)).elim
    · exact hgets
  rw [create_run_eq hname hnul hp (Path.child_of_not_mem hs hname hdot)] at h
  rcases Work.bind_eq_error_iff.1 h with hmake | ⟨u₁, w₁, hmake, h₁⟩
  · exact absurd (Work.failsOnly_ensureDirectory _ _ _ hmake) hno
  rcases Work.bind_eq_error_iff.1 h₁ with hextract | ⟨u₂, w₂, hextract, h₂⟩
  · exact absurd (Template.failsOnly_extract _ _ _ _ _ (Work.discard_eq_error hextract)) hbelow
  rcases Work.bind_eq_error_iff.1 h₂ with hreplace | ⟨u₃, w₃, hreplace, h₃⟩
  · exact absurd (Placeholder.failsOnly_replaceBelow (by decide) _ _ _ _
      (Work.discard_eq_error hreplace)) hbelow
  obtain ⟨files, hextract⟩ := Work.discard_eq_ok_iff.1 hextract
  obtain ⟨rewritten, hreplace⟩ := Work.discard_eq_ok_iff.1 hreplace
  rcases Work.bind_eq_error_iff.1 h₃ with hroute | ⟨u₄, w₄, hroute, h₄⟩
  · have hroute := Work.discard_eq_error hroute
    obtain rfl := Route.registerIn_error hroute
    exact ⟨hname, hnul, w₁, w₂, files, rewritten, hmake, hextract, hreplace, hroute⟩
  rcases Work.bind_eq_error_iff.1 h₄ with hlist | ⟨u₅, w₅, -, h₅⟩
  · refine absurd ((ModuleList.failsOnly_registerIn _ _ _ _ _ hlist).mono ?_) hno
    rintro p rfl
    exact ⟨["mod.rs"], by simp [rootNames, listNames]⟩
  · cases h₅

/-- Puts a text into a file, in a directory that is made if it is not there. -/
def putText (p : Path) (s : String) : Work Unit := do
  Work.ensureDirectory p.parent
  Work.writeText p s

/-- A text can be put where no directory is, if the path is short enough and no file is on the way.
Besides only directories on the way are new. -/
theorem putText_run {file : String} (hw : w.Sound) (hfit : Fits (d ++ [file]))
    (hshort : Path.spelledSize (d ++ [file]) < pathLimit)
    (hway : ∀ k, k <+: d → ∀ content, w.tree.get? k ≠ some (.file content))
    (hfile : w.tree.get? (d ++ [file]) ≠ some .directory) (s : String) :
    ∃ w₁, putText ⟨.root, d ++ [file]⟩ s w = .ok () w₁ ∧ w.Beside w₁ ∧ w₁.Sound ∧
      w₁.tree.get? (d ++ [file]) = some (.file (Text.encode s)) ∧ ∀ k, k ≠ d ++ [file] →
        w₁.tree.get? k = w.tree.get? k ∨ k <+: d ∧ w₁.tree.get? k = some .directory := by
  have hsize : Path.spelledSize (d ++ [file]) = Path.spelledSize d + (file.utf8ByteSize + 1) := by
    simp
  obtain ⟨w₁, hmake⟩ := ensureDirectory_run hfit.of_append_left (by omega) hway
  obtain ⟨hb₁, hw₁, hopens₁, hg₁⟩ := directory_made hw hfit.of_append_left hmake
  have hreach : w₁.Reaches ⟨.root, d ++ [file]⟩ (d ++ [file]) :=
    Workspace.reaches_root hfit (by rw [List.dropLast_concat]; exact hopens₁.2)
      (by rwa [Path.utf8ByteSize_text_root (by simp)])
  have hfree : w₁.tree.get? (d ++ [file]) ≠ some .directory := by
    rw [hg₁.eq_of_not (not_prefix_of_append (by simp)) id]
    exact hfile
  obtain ⟨t, ht, hget⟩ :=
    Work.writeText_of_reaches hreach hfree (by rw [List.dropLast_concat]; exact hopens₁.2) s
  have hparent : (⟨.root, d ++ [file]⟩ : Path).parent = ⟨.root, d⟩ := by simp [Path.parent]
  have hbeside : w₁.Beside { w₁ with tree := t } := ⟨t, _, rfl⟩
  refine ⟨{ w₁ with tree := t }, ?_, hb₁.trans hbeside, ?_, by rw [hget, if_pos rfl],
    fun k hk => ?_⟩
  · unfold putText
    rw [hparent, Work.bind_of_ok hmake]
    exact ht
  · exact hw₁.grows hbeside
      ((grows_of_get? hfree hget).mono (fun _ h _ => h.elim) (fun k hk _ => hk ▸ hfit))
  · rw [hget, if_neg (Ne.symm hk)]
    rcases hg₁ k with he | ⟨hpre, -, hdir⟩ | ⟨hno, -⟩
    · exact .inl he
    · exact .inr ⟨hpre, hdir⟩
    · exact hno.elim

theorem Written.elsewhere {s t : FileTree} {k : Location} (h : Written name d s t)
    (hbelow : ¬ d <+: k) (habove : ¬ k <+: d) : t.get? k = s.get? k :=
  (h.around k hbelow).resolve_right fun hno => habove hno.1

theorem Written.above {s t : FileTree} {k : Location} (h : Written name d s t) (hk : k <+: d) :
    t.get? k = some .directory := by
  obtain ⟨r, rfl⟩ := hk
  have hdir := h.within []
  rw [List.append_nil] at hdir
  exact get?_of_append_directory (r := r) hdir

/-- Two trees in which the directory of a domain has been written are the same if they were the
same elsewhere. -/
theorem Written.ext {s₁ s₂ t₁ t₂ : FileTree} (h₁ : Written name d s₁ t₁) (h₂ : Written name d s₂ t₂)
    (h : ∀ k, ¬ d <+: k → ¬ k <+: d → s₁.get? k = s₂.get? k) : t₁ = t₂ := by
  refine FileTree.ext_get? fun k => ?_
  by_cases hbelow : d <+: k
  · obtain ⟨r, rfl⟩ := hbelow
    rw [h₁.within, h₂.within]
  by_cases habove : k <+: d
  · rw [h₁.above habove, h₂.above habove]
  · rw [h₁.elsewhere hbelow habove, h₂.elsewhere hbelow habove, h k hbelow habove]

theorem written_of_failure (hw : w.Sound) (hp : placeOf w.place project = root)
    (hs : '/' ∉ name.toList) (hdot : name ≠ ".")
    (hback : name ≠ "..") (hfree : w.tree.get? (root ++ rootNames ++ [name]) ≠ some .directory)
    (h : create name project Template.domain (some {}) w = .error e w')
    (he : RouteFailure ⟨.root, root ++ routeNames⟩ e) :
    w.Beside w' ∧ w'.Sound ∧ Written name (root ++ rootNames ++ [name]) w.tree w'.tree ∧
      Fits (root ++ rootNames ++ [name]) ∧ Path.spelledSize (root ++ rootNames ++ [name]) + 11 <
        pathLimit ∧ w.tree.get? (root ++ rootNames ++ [name]) = none ∧
      ∀ k, k <+: root ++ rootNames ++ [name] → ∀ content, w.tree.get? k ≠ some (.file content) := by
  obtain ⟨-, -, w₁, w₂, files, rewritten, hmake, hextract, hreplace, -⟩ :=
    registration_of_failure hp hs hdot he h
  have hup : ".." ∉ root ++ rootNames ++ [name] := by
    have hroot : ".." ∉ root := hp ▸ not_mem_placeOf hw.place.not_mem project
    simp [hroot, rootNames, Ne.symm hback]
  have hfit : Fits (root ++ rootNames ++ [name]) := by
    obtain ⟨hb, ⟨l, hopens⟩, -⟩ := Work.ensureDirectory_eq_ok hmake
    have hl := hopens.1.fits (hb.place ▸ hw.place)
    rwa [hopens.1.eq.trans (placeOf_root hup _)] at hl
  obtain ⟨-, hw₁, hopens₁, hg₁⟩ := directory_made hw hfit hmake
  have hnone : w.tree.get? (root ++ rootNames ++ [name]) = none := by
    rcases hg₁ (root ++ rootNames ++ [name]) with hsame | ⟨-, hnone, -⟩ | ⟨hno, -⟩
    · exact absurd (hsame.symm.trans hopens₁.2) hfree
    · exact hnone
    · exact hno.elim
  obtain ⟨hb, hw', hwritten⟩ := directory_written hw hfit (.inl hnone) hmake hextract hreplace
  refine ⟨hb, hw', hwritten, hfit, short_of_extract hw₁ hopens₁ hextract, hnone,
    fun k hk content hfile => ?_⟩
  obtain ⟨r, hr⟩ := hk
  have hdir : w₁.tree.get? k = some .directory :=
    get?_of_append_directory (by rw [hr]; exact hopens₁.2)
  obtain ⟨content', hfile'⟩ := hg₁.file hfile
  rw [hdir] at hfile'
  cases hfile'

/-- Where the directory of a domain can be written, a creation writes it and then ends as the
registrations do. -/
theorem create_eq_of_ready (hw : w.Sound) (hp : placeOf w.place project = root)
    (hn : project.hasNul = false) (hs : '/' ∉ name.toList)
    (hne : name ≠ "") (hdot : name ≠ ".") (hfit : Fits (root ++ rootNames ++ [name]))
    (hshort : Path.spelledSize (root ++ rootNames ++ [name]) + 11 < pathLimit)
    (hway : ∀ k, k <+: root ++ rootNames ++ [name] →
      ∀ content, w.tree.get? k ≠ some (.file content))
    (hready : Ready name (root ++ rootNames ++ [name]) w.tree) :
    ∃ v, w.Beside v ∧ Written name (root ++ rootNames ++ [name]) w.tree v.tree ∧ create name
      project Template.domain (some {}) w = registrations name ⟨.root, root ++ rootNames ++ [name]⟩
        ⟨.root, root ++ routeNames⟩ ⟨.root, root ++ listNames⟩ {} v := by
  obtain ⟨w₁, w₂, v, files, rewritten, hmake, hextract, hreplace⟩ :=
    directory_run hw hfit (by simp) hshort hway hready
  obtain ⟨hb, -, hwritten⟩ := directory_written hw hfit hready hmake hextract hreplace
  exact ⟨v, hb, hwritten,
    create_eq_registrations hne hn hp (Path.child_of_not_mem hs hne hdot) hmake hextract hreplace⟩

theorem route_apart (root : Location) (name : String) :
    ¬ root ++ rootNames ++ [name] <+: root ++ routeNames ∧
    ¬ root ++ routeNames <+: root ++ rootNames ++ [name] := by
  rw [List.append_assoc, List.prefix_append_right_inj, List.prefix_append_right_inj]
  simp [rootNames, routeNames]

theorem list_apart (root : Location) (hname : name ≠ "mod.rs") :
    ¬ root ++ rootNames ++ [name] <+: root ++ listNames ∧
    ¬ root ++ listNames <+: root ++ rootNames ++ [name] := by
  rw [List.append_assoc, List.prefix_append_right_inj, List.prefix_append_right_inj]
  simp [rootNames, listNames, hname, Ne.symm hname]

/-- A text can be put into the route file where the directory of a domain can be written. That
directory can still be written then, and off the way to it nothing else has changed. -/
theorem putText_route (hw : w.Sound) (hfit : Fits (root ++ rootNames ++ [name]))
    (hshort : Path.spelledSize (root ++ rootNames ++ [name]) + 11 < pathLimit)
    (hway : ∀ k, k <+: root ++ rootNames ++ [name] →
      ∀ content, w.tree.get? k ≠ some (.file content))
    (hready : Ready name (root ++ rootNames ++ [name]) w.tree)
    (hroute : w.tree.get? (root ++ routeNames) ≠ some .directory) (c : String) :
    ∃ w₁, putText ⟨.root, root ++ routeNames⟩ c w = .ok () w₁ ∧ w.Beside w₁ ∧ w₁.Sound ∧
      (∀ k, ¬ k <+: root ++ rootNames ++ [name] → w₁.tree.get? k = if k = root ++ routeNames then
        some (.file (Text.encode c)) else w.tree.get? k) ∧
      (∀ k, k <+: root ++ rootNames ++ [name] → ∀ content, w₁.tree.get? k ≠ some (.file content)) ∧
      Ready name (root ++ rootNames ++ [name]) w₁.tree := by
  have hnames : root ++ routeNames = root ++ ["src", "app"] ++ ["route.rs"] := by simp [routeNames]
  have happ : root ++ ["src", "app"] <+: root ++ rootNames ++ [name] := by
    rw [List.append_assoc, List.prefix_append_right_inj]
    simp [rootNames]
  have hroot : Fits root := hfit.of_append_left.of_append_left
  have hsize : Path.spelledSize (root ++ routeNames) < pathLimit := by
    simp only [Path.spelledSize_append, spelledSize_rootNames, spelledSize_routeNames,
      Path.spelledSize_cons, Path.spelledSize_nil] at hshort ⊢
    omega
  obtain ⟨w₁, hput, hb₁, hw₁, hfile, hkeep⟩ :=
    putText_run hw (hnames ▸ hroot.append routeNames_fits)
    (by rwa [← hnames]) (fun k hk => hway k (hk.trans happ)) (by rwa [← hnames]) c
  rw [← hnames] at hput hfile hkeep
  refine ⟨w₁, hput, hb₁, hw₁, fun k hk => ?_, fun k hk content => ?_, ?_⟩
  · by_cases hr : k = root ++ routeNames
    · rw [if_pos hr, hr, hfile]
    · rw [if_neg hr]
      exact (hkeep k hr).resolve_right fun hno => hk (hno.1.trans happ)
  · rcases hkeep k (fun hr => (route_apart root name).2 (hr ▸ hk)) with hsame | ⟨-, hdir⟩
    · rw [hsame]
      exact hway k hk content
    · rw [hdir]
      simp
  · have hbelow (r : Location) : w₁.tree.get? (root ++ rootNames ++ [name] ++ r) =
        w.tree.get? (root ++ rootNames ++ [name] ++ r) := by
      refine (hkeep _ (route_ne root [name] r).symm).resolve_right fun hno => ?_
      have hlong := hno.1.length_le
      simp [rootNames] at hlong
    rcases hready with hnone | hnode
    · have hsame := hbelow []
      rw [List.append_nil, hnone] at hsame
      exact .inl hsame
    · exact .inr fun r => (hbelow r).trans (hnode r)

theorem create_after_putText (hw : w.Sound) (hp : placeOf w.place project = root)
    (hn : project.hasNul = false) (hs : '/' ∉ name.toList)
    (hne : name ≠ "") (hdot : name ≠ ".") (hfit : Fits (root ++ rootNames ++ [name]))
    (hshort : Path.spelledSize (root ++ rootNames ++ [name]) + 11 < pathLimit)
    (hway : ∀ k, k <+: root ++ rootNames ++ [name] →
      ∀ content, w.tree.get? k ≠ some (.file content))
    (hready : Ready name (root ++ rootNames ++ [name]) w.tree)
    (hroute : w.tree.get? (root ++ routeNames) ≠ some .directory) (c : String) :
    ∃ w₁ v, putText ⟨.root, root ++ routeNames⟩ c w = .ok () w₁ ∧ w.Beside v ∧
      Written name (root ++ rootNames ++ [name]) w₁.tree v.tree ∧
      (∀ k, ¬ k <+: root ++ rootNames ++ [name] → w₁.tree.get? k = if k = root ++ routeNames then
        some (.file (Text.encode c)) else w.tree.get? k) ∧
      create name project Template.domain (some {}) w₁ =
        registrations name ⟨.root, root ++ rootNames ++ [name]⟩
        ⟨.root, root ++ routeNames⟩ ⟨.root, root ++ listNames⟩ {} v := by
  obtain ⟨w₁, hput, hb₁, hw₁, haround, hway₁, hready₁⟩ :=
    putText_route hw hfit hshort hway hready hroute c
  obtain ⟨v, hb, hwritten, hcreate⟩ :=
    create_eq_of_ready hw₁ (by rw [hb₁.place, hp]) hn hs hne hdot hfit hshort hway₁ hready₁
  exact ⟨w₁, v, hput, hb₁.trans hb, hwritten, haround, hcreate⟩

theorem route_not_directory (hw : w.Sound)
    (hsize : Path.spelledSize (root ++ routeNames) < pathLimit)
    (he : RouteFailure ⟨.root, root ++ routeNames⟩ e)
    (h : Route.registerIn ⟨.root, root ++ routeNames⟩ name ({} : Settings).markers.imports
      ({} : Settings).markers.routes w = .error e w') :
    w.tree.get? (root ++ routeNames) ≠ some .directory := by
  intro hdir
  have hread := Work.readText_of_directory (hw.reaches hdir (by simp [routeNames]) hsize) hdir
  rw [Route.registerIn, Work.bind_of_error hread] at h
  obtain ⟨rfl, -⟩ := EStateM.Result.error.inj h
  rcases he with he | ⟨fault, he⟩ | he
  · simp [Refusal.error, Refusal.number] at he
  · cases he
  · cases he

/-- A creation that fails for the sake of the route file leaves the route file and the module list
as they were, and adds nothing but the directory of the domain and directories on the way to it.
Whatever text is then put into the route file, a second creation ends as it does where the text was
put there at first. -/
theorem create_recovers (hw : w.Sound) (hp : placeOf w.place project = root)
    (hs : '/' ∉ name.toList) (hname : name ∉ [".", "..", "mod.rs"])
    (hfree : w.tree.get? (root ++ rootNames ++ [name]) ≠ some .directory)
    (h : create name project Template.domain (some {}) w = .error e w')
    (he : RouteFailure ⟨.root, root ++ routeNames⟩ e) :
    w'.tree.get? (root ++ routeNames) = w.tree.get? (root ++ routeNames) ∧
    w'.tree.get? (root ++ listNames) = w.tree.get? (root ++ listNames) ∧
    Written name (root ++ rootNames ++ [name]) w.tree w'.tree ∧
    ∀ c, ∃ w₁ w₂, putText ⟨.root, root ++ routeNames⟩ c w = .ok () w₁ ∧
      putText ⟨.root, root ++ routeNames⟩ c w' = .ok () w₂ ∧
      Work.Agree (create name project Template.domain (some {}) w₁)
        (create name project Template.domain (some {}) w₂) := by
  simp only [List.mem_cons, List.not_mem_nil, or_false, not_or] at hname
  obtain ⟨hdot, hback, hlist⟩ := hname
  obtain ⟨hne, hn, -, -, -, -, -, -, -, hroute⟩ := registration_of_failure hp hs hdot he h
  obtain ⟨hb, hw', hwritten, hfit, hshort, hnone, hway⟩ :=
    written_of_failure hw hp hs hdot hback hfree h he
  have hkept := hwritten.elsewhere (route_apart root name).1 (route_apart root name).2
  refine ⟨hkept, hwritten.elsewhere (list_apart root hlist).1 (list_apart root hlist).2,
    hwritten, fun c => ?_⟩
  have hsize : Path.spelledSize (root ++ routeNames) < pathLimit := by
    simp only [Path.spelledSize_append, spelledSize_rootNames, spelledSize_routeNames,
      Path.spelledSize_cons, Path.spelledSize_nil] at hshort ⊢
    omega
  have hfile := route_not_directory hw' hsize he hroute
  have hway' : ∀ k, k <+: root ++ rootNames ++ [name] →
      ∀ content, w'.tree.get? k ≠ some (.file content) := by
    intro k hk content
    rw [hwritten.above hk]
    simp
  obtain ⟨w₁, v₁, hput₁, hb₁, hwritten₁, haround₁, hcreate₁⟩ :=
    create_after_putText hw hp hn hs hne hdot hfit hshort hway (.inl hnone) (hkept ▸ hfile) c
  obtain ⟨w₂, v₂, hput₂, hb₂, hwritten₂, haround₂, hcreate₂⟩ :=
    create_after_putText hw' (by rw [hb.place, hp]) hn hs hne hdot hfit hshort hway'
      (.inr hwritten.within) hfile c
  have htree : v₂.tree = v₁.tree := by
    refine hwritten₂.ext hwritten₁ fun k hbelow habove => ?_
    rw [haround₁ k habove, haround₂ k habove, hwritten.elsewhere hbelow habove]
  refine ⟨w₁, w₂, hput₁, hput₂, ?_⟩
  rw [hcreate₁, hcreate₂]
  exact deaf_registrations _ _ _ _ _ v₁ v₂ (hb₁.alike (hb.trans hb₂) htree)

/-- A first creation where there is no project yet: the route file is missing. -/
theorem create_recovers_users : ∃ w' w₁ w₂,
    create "users" ⟨.root, ["shop"]⟩ Template.domain (some {}) Workspace.bare =
      .error (.system (Refusal.missing.error ⟨.root, ["shop", "src", "app", "route.rs"]⟩) []) w' ∧
    w'.tree.get? (["shop"] ++ routeNames) = none ∧ w'.tree.get? (["shop"] ++ listNames) = none ∧
    Written "users" (["shop"] ++ rootNames ++ ["users"]) ∅ w'.tree ∧
    putText ⟨.root, ["shop"] ++ routeNames⟩ Template.Project.routes Workspace.bare = .ok () w₁ ∧
    putText ⟨.root, ["shop"] ++ routeNames⟩ Template.Project.routes w' = .ok () w₂ ∧
    Work.Agree (create "users" ⟨.root, ["shop"]⟩ Template.domain (some {}) w₁)
      (create "users" ⟨.root, ["shop"]⟩ Template.domain (some {}) w₂) := by
  have hempty (k : Location) (hk : k ≠ []) : Workspace.bare.tree.get? k = none := get?_empty hk
  have hfit : Fits (["shop"] ++ rootNames ++ ["users"]) := by
    unfold Fits
    decide
  have hplace : placeOf Workspace.bare.place ⟨.root, ["shop"]⟩ = ["shop"] :=
    placeOf_root (by decide) _
  have hway : ∀ k, k <+: ["shop"] ++ rootNames ++ ["users"] → ∀ content,
      Workspace.bare.tree.get? k ≠ some (.file content) := by
    intro k _ content
    by_cases hk : k = []
    · simp [hk]
    · simp [hempty k hk]
  obtain ⟨v, hb, hwritten, hcreate⟩ :=
    create_eq_of_ready Workspace.bare_sound hplace (by decide) (by decide)
    (by decide) (by decide) hfit (by decide) hway (.inl (hempty _ (by simp)))
  have hmissing : v.tree.get? (["shop"] ++ routeNames) = none := by
    rw [hwritten.elsewhere (route_apart _ _).1 (route_apart _ _).2]
    exact hempty _ (by simp)
  have hreach : v.Reaches ⟨.root, ["shop"] ++ routeNames⟩ (["shop"] ++ routeNames) := by
    refine Workspace.reaches_root (by unfold Fits; decide) (hwritten.above ?_) (by decide)
    simp [routeNames, rootNames]
  have hread := Work.readText_of_missing hreach hmissing
  have herror : create "users" ⟨.root, ["shop"]⟩ Template.domain (some {}) Workspace.bare =
      .error (.system (Refusal.missing.error ⟨.root, ["shop"] ++ routeNames⟩) []) v := by
    rw [hcreate]
    refine Work.bind_of_error (Work.bind_of_error ?_ _) _
    rw [Route.registerIn]
    exact Work.bind_of_error hread _
  obtain ⟨-, hlist, hwritten', hretry⟩ :=
    create_recovers Workspace.bare_sound hplace (by decide) (by decide)
    (by rw [hempty _ (by simp)]; simp) herror (.inl rfl)
  obtain ⟨w₁, w₂, hput₁, hput₂, hagree⟩ := hretry Template.Project.routes
  refine ⟨v, w₁, w₂, herror, hmissing, ?_, hwritten', hput₁, hput₂, hagree⟩
  rw [hlist]
  exact hempty _ (by simp)

end ApiScaffold.Domain
