import ApiScaffold.Proofs.Domain.Contents
import ApiScaffold.Proofs.Project.Create

/-! Domains of a new project. What the module list, the route file and the domain root hold follows
from the names of the domains in the order of their creations, and each creation ends well unless a
path gets too long. -/
namespace ApiScaffold.Domain
open FileTree Settings
variable {w w' : Workspace} {name : String} {names done : List String} {project : Path}
  {root : Location} {created : Created}

/-- A word of one line that can name a directory beside the module list, and in which no
marker occurs. -/
structure Named (name : String) : Prop where
  named : name ≠ ""
  size : name.utf8ByteSize ≤ nameLimit
  slash : '/' ∉ name.toList
  nul : '\x00' ∉ name.toList
  oneLine : ModuleList.OneLine name.toList
  here : name ≠ "."
  back : name ≠ ".."
  list : name ≠ "mod.rs"
  imports : ¬ Route.usualImports.marker.toList <:+: name.toList
  calls : ¬ Route.usualCalls.marker.toList <:+: name.toList

theorem Named.fit (h : Named name) : Route.Fit name := by
  refine ⟨fun hm => ?_, h.imports, h.calls⟩
  have := h.oneLine '\n' hm
  simp [Text.isLineBreak] at this

theorem Named.fits (h : Named name) : Fits [name] := by
  intro n hm
  obtain rfl := List.mem_singleton.1 hm
  exact ⟨h.back, h.size, h.nul⟩

/-- Words of lower-case letters can be names. -/
theorem Named.of_letters (hne : name ≠ "") (hsize : name.utf8ByteSize ≤ nameLimit)
    (hl : ∀ c ∈ name.toList, 'a' ≤ c ∧ c ≤ 'z') : Named name := by
  have hout (c : Char) (hc : ¬ ('a' ≤ c ∧ c ≤ 'z')) : c ∉ name.toList := fun hm => hc (hl c hm)
  have hslash : '/' ∉ name.toList := hout _ (by decide)
  have hdot : '.' ∉ name.toList := hout _ (by decide)
  refine ⟨hne, hsize, hslash, hout _ (by decide),
    fun c hc => ?_, ?_, ?_, ?_, fun h => ?_, fun h => ?_⟩
  · rw [← Bool.not_eq_true]
    intro hb
    simp only [Text.isLineBreak, Bool.or_eq_true, decide_eq_true_iff, or_assoc] at hb
    rcases hb with rfl | rfl | rfl | rfl | rfl | rfl | rfl | rfl | rfl | rfl <;>
      exact hout _ (by decide) hc
  · rintro rfl
    exact hdot (by decide)
  · rintro rfl
    exact hdot (by decide)
  · rintro rfl
    exact hdot (by decide)
  · exact hslash (h.subset (by decide))
  · exact hslash (h.subset (by decide))

/-- The longest path to which the creation of a domain writes. -/
def handlerPath (root : Location) (name : String) : Path :=
  ⟨.root, root ++ rootNames ++ [name, "handler.rs"]⟩

theorem handlerPath_size (root : Location) (name : String) :
    (handlerPath root name).text.utf8ByteSize = Path.spelledSize root + name.utf8ByteSize + 27 := by
  have hfile : "handler.rs".utf8ByteSize = 10 := by decide
  rw [handlerPath, Path.utf8ByteSize_text_root (by simp), Path.spelledSize_append,
    Path.spelledSize_append, spelledSize_rootNames, Path.spelledSize_cons, Path.spelledSize_cons,
    Path.spelledSize_nil, hfile]
  omega

theorem spelledSize_directory (root : Location) (name : String) :
    Path.spelledSize (root ++ rootNames ++ [name]) + 11 =
      (handlerPath root name).text.utf8ByteSize := by
  rw [handlerPath_size]
  simp only [Path.spelledSize_append, spelledSize_rootNames, Path.spelledSize_cons,
    Path.spelledSize_nil]
  omega

/-- A project in which domains have been created. -/
structure Grown (w : Workspace) (root : Location) (names : List String) : Prop where
  sound : w.Sound
  list : w.tree.get? (root ++ listNames) =
    some (.file (Text.encode (String.ofList (ModuleList.listed Template.modulesHead names))))
  routes : ∃ t, w.tree.get? (root ++ routeNames) = some (.file (Text.encode t)) ∧ Text.segments '\n'
    t.toList = Route.registered names (Text.segments '\n' Template.Project.routes.toList)
  domains : ∀ n ∈ names, ∀ r, w.tree.get? (root ++ rootNames ++ [n] ++ r) = nodeAt n r
  free : ∀ x, x ∉ names → x ≠ "mod.rs" → w.tree.get? (root ++ rootNames ++ [x]) = none

theorem grown_of_new {path : Path} (h : Project.New w path root) : Grown w root [] where
  sound := h.sound
  list := by rw [← Template.modules_listed, String.ofList_toList, h.list]
  routes := ⟨_, h.routes, (Route.registered_nil _).symm⟩
  domains n hn := by simp at hn
  free x _ hx := h.free x hx

namespace Grown

theorem domainRoot (h : Grown w root names) :
    w.tree.get? (root ++ rootNames) = some .directory := by
  have := get?_dropLast h.list
  rwa [List.dropLast_append_of_ne_nil (by decide)] at this

theorem directory (h : Grown w root names) : w.tree.get? root = some .directory :=
  get?_of_append_directory h.domainRoot

theorem opens (h : Grown w root names) (hsize : Path.spelledSize root + 1 < pathLimit) :
    w.Opens ⟨.root, root⟩ root := by
  have htext : (⟨.root, root⟩ : Path).text.utf8ByteSize ≤ 1 + Path.spelledSize root :=
    Path.utf8ByteSize_text_append .root [] root
  exact ⟨Workspace.reaches_root (h.sound.1 _ _ h.directory) (get?_dropLast h.directory) (by omega),
    h.directory⟩

theorem ready (h : Grown w root names) (hn : name ≠ "mod.rs") :
    Ready name (root ++ rootNames ++ [name]) w.tree := by
  by_cases hm : name ∈ names
  · exact .inr (h.domains name hm)
  · exact .inl (h.free name hm hn)

theorem register (h : Grown w root names) (hnames : ∀ n ∈ names, Named n) (hn : Route.Fit name) :
    ∃ s t, w.tree.get? (root ++ routeNames) = some (.file (Text.encode s)) ∧
      Route.register "route.rs" Route.usualImports.marker Route.usualCalls.marker name s.toList =
        .ok t ∧ Text.segments '\n' t =
        Route.registered (names ++ [name]) (Text.segments '\n' Template.Project.routes.toList) := by
  obtain ⟨s, hs, hseg⟩ := h.routes
  obtain ⟨above, between, below, hlines, hunfilled⟩ := Template.routes_lines
  have hready := hunfilled.ready
  rw [List.nil_append, ← hlines] at hready
  obtain ⟨t, ht, hseg'⟩ :=
    Route.register_lines "route.rs" hready (fun n hm => (hnames n hm).fit) hn hseg
  exact ⟨s, t, hs, ht, hseg'⟩

/-- The registrations of a domain write the route file and the module list, and nothing else. -/
theorem registrations_written {w₁ w₂ : Workspace} {s text : String} {t : List Char} {added : Bool}
    (hw : w.Sound) (hnames : ∀ n ∈ names, Named n) (hsize : Path.spelledSize root + 22 < pathLimit)
    (hs : w.tree.get? (root ++ routeNames) = some (.file (Text.encode s)))
    (ht : Route.register "route.rs" Route.usualImports.marker Route.usualCalls.marker name
      s.toList = .ok t)
    (hl : w.tree.get? (root ++ listNames) =
      some (.file (Text.encode (String.ofList (ModuleList.listed Template.modulesHead names)))))
    (hroute : Route.registerIn ⟨.root, root ++ routeNames⟩ name
      Route.usualImports.marker Route.usualCalls.marker w = .ok text w₁)
    (hlist : ModuleList.registerIn ⟨.root, root ++ listNames⟩ name w₁ = .ok added w₂) :
    w.Beside w₂ ∧ w₂.Sound ∧
      w₂.tree.get? (root ++ routeNames) = some (.file (Text.encode (String.ofList t))) ∧
      w₂.tree.get? (root ++ listNames) =
        some (.file (Text.encode
          (String.ofList (ModuleList.listed Template.modulesHead (names ++ [name]))))) ∧
      ∀ k, k ≠ root ++ routeNames → k ≠ root ++ listNames → w₂.tree.get? k = w.tree.get? k := by
  have hapart : root ++ routeNames ≠ root ++ listNames := by simp [routeNames, listNames]
  have hreach : w.Reaches ⟨.root, root ++ routeNames⟩ (root ++ routeNames) := by
    refine hw.reaches hs (by simp [routeNames]) ?_
    rw [Path.spelledSize_append, spelledSize_routeNames]
    omega
  have hname : Path.name ⟨.root, root ++ routeNames⟩ = "route.rs" := by simp [Path.name, routeNames]
  rw [← hname] at ht
  obtain ⟨v, hroute', hb₁, hget₁, -⟩ := Route.registerIn_of_ok hreach hs ht
  obtain ⟨-, rfl⟩ := EStateM.Result.ok.inj (hroute'.symm.trans hroute)
  have hw₁ : v.Sound :=
    hw.grows hb₁ ((grows_of_get? (by simp [hs]) hget₁).mono (fun _ hno _ => hno.elim)
    (fun k hk _ => hk ▸ hw.1 _ _ hs))
  have hl₁ : v.tree.get? (root ++ listNames) = some
      (.file (Text.encode (String.ofList (ModuleList.listed Template.modulesHead names)))) := by
    rw [hget₁, if_neg hapart, hl]
  have hreach₁ : v.Reaches ⟨.root, root ++ listNames⟩ (root ++ listNames) := by
    refine hw₁.reaches hl₁ (by simp [listNames]) ?_
    rw [Path.spelledSize_append, spelledSize_listNames]
    omega
  obtain ⟨hb₂, hget₂⟩ :=
    ModuleList.registerIn_listed Template.modulesHead_oneLine Template.strip_modulesHead
    (fun n hm => (hnames n hm).oneLine) hreach₁ hl₁ hlist
  have hw₂ : w₂.Sound :=
    hw₁.grows hb₂ ((grows_of_get? (by simp [hl₁]) hget₂).mono (fun _ hno _ => hno.elim)
    (fun k hk _ => hk ▸ hw.1 _ _ hl))
  refine ⟨hb₁.trans hb₂, hw₂, ?_, ?_, fun k hr hm => ?_⟩
  · rw [hget₂, if_neg hapart.symm, hget₁, if_pos rfl]
  · rw [hget₂, if_pos rfl]
  · rw [hget₂, if_neg (Ne.symm hm), hget₁, if_neg (Ne.symm hr)]

theorem canCreate (h : Grown w root names) (hnames : ∀ n ∈ names, Named n) (hn : Named name)
    (hshort : (handlerPath root name).text.utf8ByteSize < pathLimit) :
    CanCreate w name root Template.domain [name] := by
  have hroot : (⟨.root, root⟩ : Path).text.utf8ByteSize ≤ 1 + Path.spelledSize root :=
    Path.utf8ByteSize_text_append .root [] root
  obtain ⟨s, t, hs, ht, -⟩ := h.register hnames hn.fit
  have hready := h.ready hn.list
  have hlong : Path.spelledSize (root ++ rootNames ++ [name]) + 11 < pathLimit := by
    rwa [spelledSize_directory]
  have hroom := hready.room (by simp) hlong
  rw [handlerPath_size] at hshort
  refine ⟨h.sound, hn.named, Path.child_of_not_mem hn.slash hn.named hn.here, ?_, h.domainRoot, ?_,
    hn.fits, ?_, ?_, hroom, domain_shallow, ?_, ⟨s, t, hs, ht⟩, ⟨_, h.list⟩⟩
  · exact h.opens (by omega)
  · rw [spelledSize_listNames]
    omega
  · rw [Path.utf8ByteSize_text_root (by simp [rootNames]), Path.spelledSize_append,
      spelledSize_rootNames, Path.spelledSize_cons, Path.spelledSize_nil]
    omega
  · intro ms hms content
    have hcases : ms = [] ++ [name] ∨ ms <+: [] := List.prefix_concat_iff.1 hms
    rcases hcases with rfl | hnil
    · exact hready.not_file content
    · obtain rfl := List.prefix_nil.1 hnil
      simp [h.domainRoot]
  · intro r n hget
    exact hready.entriesNear (by simp) hlong hget

/-- A domain joins the others where its directory, the route file and the module list are written
for it and nothing else changes. -/
theorem join (h : Grown w root names) (hnames : ∀ n ∈ names, Named n) (hsound : w'.Sound)
    (hlist : w'.tree.get? (root ++ listNames) =
      some (.file (Text.encode
        (String.ofList (ModuleList.listed Template.modulesHead (names ++ [name]))))))
    (hroutes : ∃ t, w'.tree.get? (root ++ routeNames) = some (.file (Text.encode t)) ∧
      Text.segments '\n' t.toList =
        Route.registered (names ++ [name]) (Text.segments '\n' Template.Project.routes.toList))
    (hdomain : ∀ r, w'.tree.get? (root ++ rootNames ++ [name] ++ r) = nodeAt name r)
    (hkeep : ∀ k, ¬ root ++ rootNames ++ [name] <+: k →
      k ≠ root ++ routeNames → k ≠ root ++ listNames → w'.tree.get? k = w.tree.get? k) :
    Grown w' root (names ++ [name]) := by
  have hother (n : String) (hne : n ≠ name) (hmod : n ≠ "mod.rs") (r : Location) : w'.tree.get?
      (root ++ rootNames ++ [n] ++ r) = w.tree.get? (root ++ rootNames ++ [n] ++ r) := by
    refine hkeep _ ?_ (route_ne _ _ _).symm (list_ne hmod _ _).symm
    rw [List.append_assoc (root ++ rootNames) [n] r, List.prefix_append_right_inj,
      List.singleton_append, List.cons_prefix_cons]
    exact fun hp => hne hp.1.symm
  refine ⟨hsound, hlist, hroutes, fun n hm r => ?_, fun x hx hmod => ?_⟩
  · by_cases hne : n = name
    · rw [hne, hdomain]
    · have hm' : n ∈ names := by simpa [hne] using hm
      rw [hother n hne (hnames n hm').list, h.domains n hm']
  · rw [List.mem_append, List.mem_singleton, not_or] at hx
    have hsame := hother x hx.2 hmod []
    rw [List.append_nil] at hsame
    rw [hsame, h.free x hx.1 hmod]

/-- One creation more: the domain joins the others, and nothing changes but its directory, the route
file and the module list. -/
theorem create (h : Grown w root names) (hnames : ∀ n ∈ names, Named n) (hn : Named name)
    (hp : placeOf w.place project = root)
    (hshort : (handlerPath root name).text.utf8ByteSize < pathLimit)
    (hc : Domain.create name project Template.domain (some {}) w = .ok created w') :
    w.Beside w' ∧ Grown w' root (names ++ [name]) ∧ ∀ k, ¬ root ++ rootNames ++ [name] <+: k →
      k ≠ root ++ routeNames → k ≠ root ++ listNames → w'.tree.get? k = w.tree.get? k := by
  obtain ⟨hpath, w₁, w₂, w₃, w₄, w₅, files, rewritten, text, hmake, hextract, hreplace, hroute,
    hlist, hb₅, htree⟩ :=
    usual_eq_ok hp hc
  rw [hpath, Path.child_of_not_mem hn.slash hn.named hn.here] at hmake hextract hreplace
  have hfits : Fits (root ++ rootNames ++ [name]) := (h.sound.1 _ _ h.domainRoot).append hn.fits
  obtain ⟨hb₃, hw₃, hwritten⟩ :=
    directory_written h.sound hfits (h.ready hn.list) hmake hextract hreplace
  have hkeep₃ (k : Location) : ¬ root ++ rootNames ++ [name] <+: k →
      w₃.tree.get? k = w.tree.get? k :=
    hwritten.around_eq h.domainRoot
  have hkept (r : Location) (hr : ¬ rootNames ++ [name] <+: r) :
      w₃.tree.get? (root ++ r) = w.tree.get? (root ++ r) := by
    refine hkeep₃ _ ?_
    rwa [List.append_assoc, List.prefix_append_right_inj]
  obtain ⟨s, t, hs, ht, hseg⟩ := h.register hnames hn.fit
  have hs₃ := (hkept routeNames (by simp [rootNames, routeNames])).trans hs
  have hlist₃ := (hkept listNames (by simpa [rootNames, listNames] using hn.list)).trans h.list
  rw [handlerPath_size] at hshort
  obtain ⟨hb₄, hw₅, hroute₅, hlist₅, hkeep₅⟩ :=
    registrations_written hw₃ hnames (by omega) hs₃ ht hlist₃ hroute hlist
  have hkeep (k : Location) (hk : ¬ root ++ rootNames ++ [name] <+: k) (hr : k ≠ root ++ routeNames)
      (hl : k ≠ root ++ listNames) : w'.tree.get? k = w.tree.get? k := by
    rw [htree, hkeep₅ k hr hl, hkeep₃ k hk]
  refine ⟨(hb₃.trans hb₄).trans hb₅,
    h.join hnames ?_ ?_ ⟨String.ofList t, ?_, ?_⟩ (fun r => ?_) hkeep, hkeep⟩
  · exact hw₅.grows hb₅ fun k => .inl (by rw [htree])
  · rw [htree, hlist₅]
  · rw [htree, hroute₅]
  · rw [String.toList_ofList, hseg]
  · rw [htree, hkeep₅ _ (route_ne _ _ _).symm (list_ne hn.list _ _).symm, hwritten.within]

/-- Only where the path to its handler is short enough can a domain be created. -/
theorem short_of_create (h : Grown w root names)
    (hn : Named name) (hp : placeOf w.place project = root)
    (hc : Domain.create name project Template.domain (some {}) w = .ok created w') :
    (handlerPath root name).text.utf8ByteSize < pathLimit := by
  obtain ⟨hpath, w₁, w₂, w₃, w₄, w₅, files, rewritten, text, hmake, hextract, -⟩ :=
    usual_eq_ok hp hc
  rw [hpath, Path.child_of_not_mem hn.slash hn.named hn.here] at hmake hextract
  have hfits : Fits (root ++ rootNames ++ [name]) := (h.sound.1 _ _ h.domainRoot).append hn.fits
  obtain ⟨-, hw₁, hopens₁, -⟩ := directory_made h.sound hfits hmake
  rw [← spelledSize_directory]
  exact short_of_extract hw₁ hopens₁ hextract

end Grown

end ApiScaffold.Domain
