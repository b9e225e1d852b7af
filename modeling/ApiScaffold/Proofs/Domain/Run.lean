import ApiScaffold.Proofs.Domain.Grown
import ApiScaffold.Proofs.FileTree.Listing
import Mathlib.Data.List.Sort
import Mathlib.Data.String.Basic

/-! Runs of creations in a new project. Each creation of a run ends well unless a path gets
too long; the module list, the route file and the list of domains then agree on what has
been created. -/
namespace ApiScaffold.Domain
open FileTree Settings
variable {w w' : Workspace} {name : String} {names done : List String} {project : Path}
  {root : Location}

/-- Creates domains from the usual template, one after the other. -/
def createAll (project : Path) (names : List String) : Work (List Created) :=
  names.mapM fun name => create name project Template.domain (some {})

/-- Nothing but domains, the route file and the module list differs between two workspaces. -/
def OnlyDomains (w w' : Workspace) (root : Location) (names : List String) : Prop :=
  ∀ k, (∀ n ∈ names, ¬ root ++ rootNames ++ [n] <+: k) → k ≠ root ++ routeNames →
    k ≠ root ++ listNames → w'.tree.get? k = w.tree.get? k

namespace Grown

theorem createAll {createds : List Created} (h : Grown w root done) (hdone : ∀ n ∈ done, Named n)
    (hn : ∀ n ∈ names, Named n) (hp : placeOf w.place project = root)
    (hc : Domain.createAll project names w = .ok createds w') :
    w.Beside w' ∧ Grown w' root (done ++ names) ∧ OnlyDomains w w' root names ∧
      ∀ n ∈ names, (handlerPath root n).text.utf8ByteSize < pathLimit := by
  induction names generalizing w done createds with
  | nil =>
    obtain ⟨-, rfl⟩ := EStateM.Result.ok.inj hc
    exact ⟨.refl _, by simpa using h, fun _ _ _ _ => rfl, by simp⟩
  | cons n names ih =>
    obtain ⟨created, w₁, rest, hcreate, hrest, -⟩ := Work.mapM_cons_eq_ok_iff.1 hc
    have hshort := h.short_of_create (hn n List.mem_cons_self) hp hcreate
    obtain ⟨hb, h₁, hkeep⟩ := h.create hdone (hn n List.mem_cons_self) hp hshort hcreate
    have hdone₁ : ∀ m ∈ done ++ [n], Named m :=
      List.forall_mem_append.2 ⟨hdone, List.forall_mem_singleton.2 (hn n List.mem_cons_self)⟩
    obtain ⟨hb', h', hkeep', hshorts⟩ := ih h₁ hdone₁ (fun m hm => hn m (List.mem_cons_of_mem n hm))
      (by rw [hb.place, hp]) hrest
    refine ⟨hb.trans hb', by simpa using h', fun k hk hr hl => ?_, fun m hm => ?_⟩
    · rw [hkeep' k (fun m hm => hk m (List.mem_cons_of_mem n hm)) hr hl,
        hkeep k (hk n List.mem_cons_self) hr hl]
    · rcases List.mem_cons.1 hm with rfl | hm
      · exact hshort
      · exact hshorts m hm

theorem createAll_run (h : Grown w root done)
    (hdone : ∀ n ∈ done, Named n) (hn : ∀ n ∈ names, Named n)
    (hp : placeOf w.place project = root) (hnul : project.hasNul = false)
    (hshort : ∀ n ∈ names, (handlerPath root n).text.utf8ByteSize < pathLimit) :
    ∃ createds w', Domain.createAll project names w = .ok createds w' := by
  induction names generalizing w done with
  | nil => exact ⟨[], w, rfl⟩
  | cons n names ih =>
    obtain ⟨created, w₁, hcreate⟩ :=
      create_run (h.canCreate hdone (hn n List.mem_cons_self) (hshort n List.mem_cons_self)) hp hnul
    obtain ⟨hb, h₁, -⟩ :=
      h.create hdone (hn n List.mem_cons_self) hp (hshort n List.mem_cons_self) hcreate
    have hdone₁ : ∀ m ∈ done ++ [n], Named m :=
      List.forall_mem_append.2 ⟨hdone, List.forall_mem_singleton.2 (hn n List.mem_cons_self)⟩
    obtain ⟨rest, w₂, hrest⟩ :=
      ih h₁ hdone₁ (fun m hm => hn m (List.mem_cons_of_mem n hm)) (by rw [hb.place, hp])
      (fun m hm => hshort m (List.mem_cons_of_mem n hm))
    exact ⟨created :: rest, w₂, Work.mapM_cons_eq_ok_iff.2 ⟨created, w₁, rest, hcreate, hrest, rfl⟩⟩

theorem grows (h : Grown w root done) (h' : Grown w' root (done ++ names))
    (hn : ∀ n ∈ names, Named n) (hkeep : OnlyDomains w w' root names) :
    Grows (fun _ => True) (fun _ => True) w.tree w'.tree := by
  intro k
  by_cases hlist : k = root ++ listNames
  · subst hlist
    exact .inr (.inr ⟨trivial, by simp [h.list], _, h'.list⟩)
  by_cases hroute : k = root ++ routeNames
  · subst hroute
    obtain ⟨t, ht, -⟩ := h.routes
    obtain ⟨t', ht', -⟩ := h'.routes
    exact .inr (.inr ⟨trivial, by simp [ht], _, ht'⟩)
  by_cases hdomain : ∃ n ∈ names, root ++ rootNames ++ [n] <+: k
  · obtain ⟨n, hm, r, rfl⟩ := hdomain
    have hnode := h'.domains n (List.mem_append_right done hm) r
    rcases h.ready (hn n hm).list with hnone | hsame
    · have hold : w.tree.get? (root ++ rootNames ++ [n] ++ r) = none := by
        by_cases hr : r = []
        · rw [hr, List.append_nil, hnone]
        · exact get?_append_of_ne hr (by rw [hnone]; simp)
      cases hget : w'.tree.get? (root ++ rootNames ++ [n] ++ r) with
      | none => exact .inl hold.symm
      | some node =>
        cases node with
        | directory => exact .inr (.inl ⟨trivial, hold, rfl⟩)
        | file content => exact .inr (.inr ⟨trivial, by rw [hold]; simp, content, rfl⟩)
    · exact .inl (by rw [hnode, hsame])
  · exact .inl (hkeep k (fun n hm hp => hdomain ⟨n, hm, hp⟩) hroute hlist)

theorem mem_names_root {n : String} (h : Grown w root done)
    (hn : n ∈ w.tree.names (root ++ rootNames)) : n ∈ "mod.rs" :: done := by
  obtain ⟨node, hnode⟩ := mem_names.1 hn
  by_contra hm
  rw [List.mem_cons, not_or] at hm
  rw [h.free n hm.2 hm.1] at hnode
  cases hnode

/-- The domains are the directories in the domain root. They can be told where all paths there are
short enough. -/
theorem names_run {p : Path} (h : Grown w root done) (hp : w.Opens p (root ++ rootNames))
    (hshort : ∀ n ∈ "mod.rs" :: done,
      (⟨p.base, p.names ++ [n]⟩ : Path).text.utf8ByteSize < pathLimit) : ∃ found,
      Domain.names p w = .ok found w ∧ found.Pairwise (· < ·) ∧ ∀ n, n ∈ found ↔ n ∈ done := by
  refine ⟨(w.tree.names (root ++ rootNames)).filter fun n =>
    w.tree.get? (root ++ rootNames ++ [n]) = some .directory,
    ?_, (names_pairwise _ _).filter _, fun n => ?_⟩
  · rw [Domain.names, Work.subdirectories_of_opens hp fun n hn => hshort n (h.mem_names_root hn)]
  · rw [List.mem_filter, mem_names, decide_eq_true_iff]
    constructor
    · rintro ⟨-, hdir⟩
      by_contra hm
      by_cases hmod : n = "mod.rs"
      · subst hmod
        have hlist := h.list
        rw [show root ++ listNames = root ++ rootNames ++ ["mod.rs"] by simp [rootNames, listNames],
          hdir] at hlist
        cases hlist
      · rw [h.free n hm hmod] at hdir
        cases hdir
    · intro hm
      have hdir := h.domains n hm []
      rw [List.append_nil] at hdir
      exact ⟨⟨_, hdir⟩, hdir⟩

end Grown

/-- What a project shows after domains have been created in it: the module list declares each
of them once, in the order of the first creations; the route file has an import and a call for
each creation, in the order of the creations, directly below the markers; the list of domains
names each of them once, in order, if it is taken along a path on which the entries of the
domain root can be followed; the directory of each is as the template has it for its name; and
all else is as it was. -/
structure Consistent (w w' : Workspace) (path : Path) (root : Location)
    (names : List String) : Prop where
  list : w'.tree.get? (root ++ listNames) = some (.file (Text.encode (String.ofList
    (Template.Project.modules.toList ++ Text.ended (names.eraseDups.map ModuleList.declaration)))))
  routes : ∃ t above between below,
    w'.tree.get? (root ++ routeNames) = some (.file (Text.encode t)) ∧
    Text.segments '\n' Template.Project.routes.toList = above ++ Route.usualImports.marker.toList ::
      (between ++ ("    ".toList ++ Route.usualCalls.marker.toList) :: below) ∧
    Text.segments '\n' t.toList = above ++
    Route.usualImports.marker.toList :: (names.map Route.importLine ++ (between ++
      ("    ".toList ++ Route.usualCalls.marker.toList) :: (names.map Route.callLine ++ below)))
  opened : w'.Opens (({} : Settings).domainRoot path) (root ++ rootNames)
  found : ∀ p, w'.Opens p (root ++ rootNames) →
    (∀ n ∈ "mod.rs" :: names, (⟨p.base, p.names ++ [n]⟩ : Path).text.utf8ByteSize < pathLimit) →
    ∃ found, Domain.names p w' = .ok found w' ∧ found.Pairwise (· < ·) ∧ ∀ n, n ∈ found ↔ n ∈ names
  domains : ∀ n ∈ names, ∀ r, w'.tree.get? (root ++ rootNames ++ [n] ++ r) = nodeAt n r
  others : OnlyDomains w w' root names

theorem modules_ended (names : List String) : ModuleList.listed Template.modulesHead names =
    Template.Project.modules.toList ++ Text.ended (names.eraseDups.map ModuleList.declaration) := by
  rw [Template.modules_listed]
  simp [ModuleList.listed]

theorem consistent_of_createAll {path : Path}
    {createds : List Created} (hnew : Project.New w path root)
    (hn : ∀ n ∈ names, Named n) (hp : placeOf w.place project = root)
    (hc : createAll project names w = .ok createds w') : Consistent w w' path root names ∧
    ∀ n ∈ names, (handlerPath root n).text.utf8ByteSize < pathLimit := by
  have h := grown_of_new hnew
  obtain ⟨hb, h', hothers, hshort⟩ := h.createAll (by simp) hn hp hc
  have hopens := hnew.domains.grows hb (h.grows h' hn hothers)
  rw [List.nil_append] at h'
  refine ⟨⟨?_, ?_, ?_, fun _ hp => h'.names_run hp, h'.domains, hothers⟩, hshort⟩
  · rw [← modules_ended, h'.list]
  · obtain ⟨t, ht, hseg⟩ := h'.routes
    obtain ⟨above, between, below, hlines, hunfilled⟩ := Template.routes_lines
    refine ⟨t, above, between, below, ht, hlines, ?_⟩
    rw [hseg, hlines]
    exact hunfilled.registered fun n hm => (hn n hm).fit
  · rw [domainRoot_eq rfl]
    exact hopens

/-- A project made from the usual template stays consistent while domains are created in it,
whatever their names and however often they come. The creations all end well if and only if the
paths to the handlers are short enough. -/
theorem createAll_consistent {w₁ : Workspace} {parent : Path} {made : Project.Created}
    (hw : w.Sound) (hmade : Project.create name parent Template.project false w = .ok made w₁)
    (hp : placeOf w.place project = placeOf w.place made.path) (hnul : project.hasNul = false)
    (hn : ∀ n ∈ names, Named n) :
    ((∃ createds w', createAll project names w₁ = .ok createds w') ↔
      ∀ n ∈ names, (handlerPath (placeOf w.place made.path) n).text.utf8ByteSize < pathLimit) ∧
    ∀ createds w', createAll project names w₁ = .ok createds w' →
      Consistent w₁ w' made.path (placeOf w.place made.path) names := by
  obtain ⟨-, hb, -, hnew⟩ := Project.new_of_create hw hmade
  rw [← hb.place] at hp hnew ⊢
  refine ⟨⟨?_, fun hshort => ?_⟩, fun createds w' hc => (consistent_of_createAll hnew hn hp hc).1⟩
  · rintro ⟨createds, w', hc⟩
    exact (consistent_of_createAll hnew hn hp hc).2
  · exact (grown_of_new hnew).createAll_run (by simp) hn hp hnul hshort

/-- Three creations, one of them for a name that was there before. -/
theorem createAll_consistent_three : ∃ made w₁ createds w',
    Project.create "shop" ⟨.root, []⟩ Template.project false Workspace.bare = .ok made w₁ ∧
    createAll made.path ["users", "posts", "users"] w₁ = .ok createds w' ∧
    Consistent w₁ w' made.path ["shop"] ["users", "posts", "users"] ∧
    Domain.names (({} : Settings).domainRoot made.path) w' = .ok ["posts", "users"] w' ∧
    w'.tree.get? ["shop", "src", "app", "domain", "mod.rs"] =
      some (.file (Text.encode (Text.ofLines
        ["// Domain modules registered by `prustbowo create domain`.",
          "pub mod users;", "pub mod posts;"]))) := by
  have hfit : Fits ([] ++ ["shop"]) := by
    unfold Fits
    decide
  obtain ⟨made, w₁, hmade, hpath⟩ :=
    Project.create_bare (by decide) (by decide) (by decide) hfit (by decide)
  have hplace : placeOf Workspace.bare.place made.path = ["shop"] := by
    rw [hpath]
    exact placeOf_root (by decide) _
  have husers : Named "users" := .of_letters (by decide) (by decide) (by simp)
  have hposts : Named "posts" := .of_letters (by decide) (by decide) (by simp)
  have hn : ∀ n ∈ ["users", "posts", "users"], Named n := by
    simp only [List.forall_mem_cons]
    exact ⟨husers, hposts, husers, by simp⟩
  obtain ⟨hiff, hall⟩ :=
    createAll_consistent Workspace.bare_sound hmade rfl (by rw [hpath]; decide) hn
  rw [hplace] at hiff hall
  obtain ⟨createds, w', hc⟩ := hiff.2 (by simp only [handlerPath_size]; decide)
  have hcon := hall createds w' hc
  have hlist := hcon.list
  have htext : String.ofList (Template.Project.modules.toList ++
      Text.ended (["users", "posts", "users"].eraseDups.map ModuleList.declaration)) =
      Text.ofLines ["// Domain modules registered by `prustbowo create domain`.", "pub mod users;",
        "pub mod posts;"] := by
    have hnames : ["users", "posts", "users"].eraseDups.map ModuleList.declaration =
        ["pub mod users;", "pub mod posts;"].map String.toList := by
      decide
    rw [hnames, ← String.toList_inj, String.toList_ofList, Text.toList_ofLines,
      Template.Project.modules, Text.toList_ofLines]
    rfl
  rw [htext] at hlist
  obtain ⟨found, hfound, hordered, hmem⟩ := hcon.found _ hcon.opened (by rw [hpath]; decide)
  obtain rfl : found = ["posts", "users"] :=
    hordered.eq_of_mem_iff (by decide) fun n => (hmem n).trans (by simp +contextual)
  exact ⟨made, w₁, createds, w', hmade, hc, hcon, hfound, hlist⟩

theorem exists_letters (n : Nat) :
    ∃ s : String, s.utf8ByteSize = n ∧ ∀ c ∈ s.toList, 'a' ≤ c ∧ c ≤ 'z' := by
  induction n with
  | zero => exact ⟨"", by decide, by simp⟩
  | succ n ih =>
    obtain ⟨s, hsize, hs⟩ := ih
    refine ⟨s ++ "a", by rw [String.utf8ByteSize_append, hsize]; rfl, fun c hc => ?_⟩
    rw [String.toList_append, List.mem_append] at hc
    rcases hc with hc | hc
    · exact hs c hc
    · obtain rfl : c = 'a' := by simpa using hc
      decide

/-- Not every creation ends well: fifteen long names above a project and one more for a domain make
a path too long. -/
theorem not_forall_createAll :
    ¬ ∀ (w w₁ : Workspace) (name : String) (parent project : Path) (made : Project.Created)
        (names : List String), w.Sound →
      Project.create name parent Template.project false w = .ok made w₁ →
      placeOf w.place project = placeOf w.place made.path → project.hasNul = false →
      (∀ n ∈ names, Named n) → ∃ createds w', createAll project names w₁ = .ok createds w' := by
  intro h
  obtain ⟨long, hsize, hletters⟩ := exists_letters 255
  have hnamed : Named long := by
    refine .of_letters (fun he => ?_) (by rw [hsize]; decide) hletters
    rw [he] at hsize
    simp at hsize
  have hfit : Fits (List.replicate 15 long ++ ["shop"]) := by
    refine Fits.append (fun n hm => ?_) (by unfold Fits; decide)
    rw [List.eq_of_mem_replicate hm]
    exact ⟨hnamed.back, hnamed.size, hnamed.nul⟩
  have hspelled : Path.spelledSize (List.replicate 15 long ++ ["shop"]) = 3845 := by
    have hshop : "shop".utf8ByteSize = 4 := by decide
    simp [List.replicate, hsize, hshop]
  obtain ⟨made, w₁, hmade, hpath⟩ := Project.create_bare (by decide) (by decide) (by decide) hfit
    (by rw [hspelled]; decide)
  obtain ⟨-, hb, -, hnew⟩ := Project.new_of_create Workspace.bare_sound hmade
  rw [← hb.place] at hnew
  have hn : ∀ n ∈ [long], Named n := by simpa using hnamed
  have hnul : made.path.hasNul = false := by
    rw [hpath]
    exact hfit.hasNul _
  obtain ⟨createds, w', hc⟩ := h _ _ _ _ made.path _ _ Workspace.bare_sound hmade rfl hnul hn
  have hshort := (consistent_of_createAll hnew hn rfl hc).2 long List.mem_cons_self
  rw [hpath, placeOf_root hfit.not_mem, handlerPath_size, hspelled, hsize] at hshort
  exact absurd hshort (by decide)

end ApiScaffold.Domain
