import ApiScaffold.Proofs.Domain.Create
import ApiScaffold.Proofs.Template.Usual

/-! The directory of a domain. Once it is written it holds the files of the usual template for the
domain's name and nothing else, even where it was there before. -/
namespace ApiScaffold.Domain
open FileTree Settings
variable {w w' w₁ w₂ w₃ : Workspace} {name : String} {d : Location}

/-- A text of the template for one domain. -/
def forDomain (name s : String) : ByteArray :=
  Text.encode (String.ofList (Text.replace nameToken.toList name.toList s.toList))

/-- What is at a way from the directory of a domain. -/
def nodeAt (name : String) : List String → Option Node
  | [] => some .directory
  | [file] => (Template.domain.files.lookup file).map fun s => .file (forDomain name s)
  | _ => none

theorem domain_files : ∀ f ∈ Template.domain.files, Path.namesOf f.1 = [f.1] := by
  decide

theorem domain_fits : ∀ f ∈ Template.domain.files, Fits (Path.namesOf f.1) := by
  decide

theorem domain_shallow :
    ∀ f ∈ Template.domain.files, (Path.namesOf f.1).length ≤ Work.usualLevels := by
  decide

theorem spelledSize_domain_files : ∀ f ∈ Template.domain.files, Path.spelledSize [f.1] ≤ 11 := by
  decide

theorem lookup_of_mem {f : String × String} (hf : f ∈ Template.domain.files) :
    Template.domain.files.lookup f.1 = some f.2 := by
  simp only [Template.domain, List.mem_cons, List.not_mem_nil, or_false] at hf
  rcases hf with rfl | rfl | rfl <;> rfl

theorem nodeAt_file {f : String × String} (hf : f ∈ Template.domain.files) :
    nodeAt name [f.1] = some (.file (forDomain name f.2)) := by
  rw [nodeAt, lookup_of_mem hf]
  rfl

/-- Below the directory of a domain there are only the files of the template. -/
theorem nodeAt_of_ne {r : List String} (hr : r ≠ []) (h : ∀ f ∈ Template.domain.files, r ≠ [f.1]) :
    nodeAt name r = none := by
  match r with
  | [] => exact absurd rfl hr
  | [file] =>
    have hnone : Template.domain.files.lookup file = none := by
      rw [List.lookup_eq_none_iff]
      intro f hf
      simpa using fun he => h f hf (by rw [he])
    rw [nodeAt, hnone]
    rfl
  | _ :: _ :: _ => rfl

/-- The directory of a domain is not there, or it is as the creation of the domain leaves it. -/
def Ready (name : String) (d : Location) (t : FileTree) : Prop :=
  t.get? d = none ∨ ∀ r, t.get? (d ++ r) = nodeAt name r

namespace Ready
variable {t : FileTree}

theorem not_file (h : Ready name d t) (content : ByteArray) : t.get? d ≠ some (.file content) := by
  rcases h with hnone | hnode
  · rw [hnone]
    simp
  · have hdir := hnode []
    rw [List.append_nil] at hdir
    rw [hdir]
    simp [nodeAt]

theorem file_of_get? {n : Node} {r : Location}
    (h : Ready name d t) (hr : r ≠ []) (hget : t.get? (d ++ r) = some n) :
    ∃ f ∈ Template.domain.files, r = [f.1] ∧ n = .file (forDomain name f.2) := by
  rcases h with hnone | hnode
  · rw [get?_append_of_ne hr (by rw [hnone]; simp)] at hget
    cases hget
  · rw [hnode] at hget
    by_cases hfile : ∃ f ∈ Template.domain.files, r = [f.1]
    · obtain ⟨f, hf, rfl⟩ := hfile
      rw [nodeAt_file hf, Option.some_inj] at hget
      exact ⟨f, hf, rfl, hget.symm⟩
    · rw [nodeAt_of_ne hr fun f hf he => hfile ⟨f, hf, he⟩] at hget
      cases hget

/-- There is room for a domain where the path to its handler is short enough. -/
theorem room (h : Ready name d w.tree) (hne : d ≠ [])
    (hshort : Path.spelledSize d + 11 < pathLimit) :
    Template.Room w ⟨.root, d⟩ d Template.domain.files where
  fits := domain_fits
  named f hf := by simp [domain_files f hf]
  short f hf := by
    have hsize := spelledSize_domain_files f hf
    rw [domain_files f hf, Path.utf8ByteSize_text_root hne]
    omega
  noFile f hf ms hms content := by
    rw [domain_files f hf] at hms
    obtain rfl := List.prefix_nil.1 hms
    rw [List.append_nil]
    exact h.not_file content
  noDirectory f hf hget := by
    rw [domain_files f hf] at hget
    obtain ⟨g, -, -, he⟩ := h.file_of_get? (by simp) hget
    cases he
  apart f hf g hg := by
    rw [domain_files f hf, domain_files g hg]
    simp

theorem entriesNear {n : Node} {r : List String} (h : Ready name d t) (hne : d ≠ [])
    (hshort : Path.spelledSize d + 11 < pathLimit) (hget : t.get? (d ++ r) = some n) :
    Work.Near ⟨.root, d⟩ r := by
  by_cases hr : r = []
  · subst hr
    refine Work.near_nil ?_
    rw [Path.utf8ByteSize_text_root hne]
    omega
  · obtain ⟨f, hf, rfl, -⟩ := h.file_of_get? hr hget
    have hsize := spelledSize_domain_files f hf
    refine ⟨?_, (by decide : 1 ≤ Work.usualLevels)⟩
    rw [Path.utf8ByteSize_text_root hne]
    omega

end Ready

/-- The directory of a domain comes to be as the creation of the domain leaves it. Elsewhere only
directories on the way to it are new. -/
structure Written (name : String) (d : Location) (s t : FileTree) : Prop where
  within : ∀ r, t.get? (d ++ r) = nodeAt name r
  around : ∀ k, ¬ d <+: k → t.get? k = s.get? k ∨ k <+: d ∧ s.get? k = none ∧
    t.get? k = some .directory

theorem Written.around_eq {s t : FileTree} {k : Location} (h : Written name (d ++ [name]) s t)
    (hd : s.get? d = some .directory) (hk : ¬ d ++ [name] <+: k) : t.get? k = s.get? k := by
  rcases h.around k hk with he | ⟨hway, hnone, -⟩
  · exact he
  · rcases List.prefix_concat_iff.1 hway with rfl | ⟨r, rfl⟩
    · exact absurd List.prefix_rfl hk
    · rw [get?_of_append_directory hd] at hnone
      cases hnone

theorem not_prefix_of_append {r : Location} (hr : r ≠ []) : ¬ d ++ r <+: d := by
  intro h
  have hlen := h.length_le
  have hpos := List.length_pos_iff.2 hr
  rw [List.length_append] at hlen
  omega

theorem directory_made (hw : w.Sound) (hfit : Fits d)
    (h : Work.ensureDirectory ⟨.root, d⟩ w = .ok () w') : w.Beside w' ∧ w'.Sound ∧
    w'.Opens ⟨.root, d⟩ d ∧ Grows (· <+: d) (fun _ => False) w.tree w'.tree := by
  obtain ⟨hb, ⟨l, hopens⟩, hg⟩ := Work.ensureDirectory_eq_ok h
  obtain rfl : l = d := hopens.1.eq.trans (placeOf_root hfit.not_mem _)
  refine ⟨hb, ?_, hopens, hg.mono (fun k hway _ => ?_) (fun _ h _ => h)⟩
  · exact hw.grows hb
      (hg.mono (fun k hway _ => hway.fits (hb.place ▸ hw.place)) (fun _ h _ => h.elim))
  · obtain ⟨names, hnames, hreach⟩ := hway
    obtain rfl : k = names :=
      hreach.eq.trans (placeOf_root (fun hm => hfit.not_mem (hnames.mem hm)) _)
    exact hnames

theorem ensureDirectory_run (hfit : Fits d) (hshort : Path.spelledSize d + 1 < pathLimit)
    (hway : ∀ k, k <+: d → ∀ content, w.tree.get? k ≠ some (.file content)) :
    ∃ w₁, Work.ensureDirectory ⟨.root, d⟩ w = .ok () w₁ := by
  have htop : w.Opens ⟨.root, []⟩ [] :=
    ⟨Workspace.reaches_root fits_nil (get?_root _) (by decide), get?_root _⟩
  have hroot : (⟨.root, []⟩ : Path).text.utf8ByteSize = 1 := by decide
  exact Work.ensureDirectory_below htop hfit (by omega) hway

/-- The files of a domain are written into its directory, and nothing else is. -/
theorem files_written {files : List Path} (hw : w.Sound) (hopens : w.Opens ⟨.root, d⟩ d)
    (h : Template.domain.extract ⟨.root, d⟩ w = .ok files w') :
    w.Beside w' ∧ w'.Sound ∧ w'.Opens ⟨.root, d⟩ d ∧
      (∀ f ∈ Template.domain.files, w'.tree.get? (d ++ [f.1]) = some (.file (Text.encode f.2))) ∧
      ∀ k, (∀ f ∈ Template.domain.files, k ≠ d ++ [f.1]) → w'.tree.get? k = w.tree.get? k := by
  obtain ⟨-, hb, hg, -, hget⟩ := Template.extract_eq_ok hopens hw.place h
  have hget := hget (by rw [Template.domain_ways]; decide)
  refine ⟨hb, Template.sound_of_extract hw hopens h, hopens.grows hb hg,
    fun f hf => ?_, fun k hk => ?_⟩
  · rw [← hget f hf, domain_files f hf]
  · refine hg.eq_of_not ?_ ?_
    · rintro ⟨-, f, hf, ns, hns, hne, -⟩
      rw [domain_files f hf] at hns
      exact hne (List.prefix_nil.1 hns)
    · rintro ⟨-, f, hf, -, he⟩
      rw [domain_files f hf] at he
      exact hk f hf he

/-- The directory of a domain is written: the steps of a creation before the registrations. -/
theorem directory_written {files rewritten : List Path} (hw : w.Sound) (hfit : Fits d)
    (hbefore : Ready name d w.tree) (hmake : Work.ensureDirectory ⟨.root, d⟩ w = .ok () w₁)
    (hextract : Template.domain.extract ⟨.root, d⟩ w₁ = .ok files w₂)
    (hreplace : Placeholder.replaceBelow ⟨.root, d⟩ nameToken name Work.usualLevels w₂ =
      .ok rewritten w₃) :
    w.Beside w₃ ∧ w₃.Sound ∧ Written name d w.tree w₃.tree := by
  obtain ⟨hb₁, hw₁, hopens₁, hg₁⟩ := directory_made hw hfit hmake
  obtain ⟨hb₂, hw₂, hopens₂, hget₂, hkeep₂⟩ := files_written hw₁ hopens₁ hextract
  obtain ⟨-, hb₃, hin₃, hout₃⟩ := Placeholder.replaceBelow_eq_ok hw₂ hopens₂ hreplace
  have hg₃ := Placeholder.grows_of_replaceBelow hw₂ hopens₂ hreplace
  refine ⟨(hb₁.trans hb₂).trans hb₃, Placeholder.sound_of_replaceBelow hw₂ hopens₂ hreplace,
    fun r => ?_, fun k hk => ?_⟩
  · by_cases hr : r = []
    · subst hr
      rw [List.append_nil]
      exact hg₃.directory hopens₂.2
    rw [hin₃ _ ⟨r, hr, rfl⟩]
    by_cases hfile : ∃ f ∈ Template.domain.files, r = [f.1]
    · obtain ⟨f, hf, rfl⟩ := hfile
      rw [hget₂ f hf, nodeAt_file hf, Option.map_some, Placeholder.stampedNode,
        Placeholder.stamped_encode]
      rfl
    · have hno : ∀ f ∈ Template.domain.files, r ≠ [f.1] := fun f hf he => hfile ⟨f, hf, he⟩
      have hnone : w.tree.get? (d ++ r) = none := by
        rcases hbefore with hfresh | hold
        · exact get?_append_of_ne hr (by simp [hfresh])
        · rw [hold, nodeAt_of_ne hr hno]
      rw [hkeep₂ _ fun f hf he => hno f hf (List.append_cancel_left he),
        hg₁.eq_of_not (not_prefix_of_append hr) id, hnone, nodeAt_of_ne hr hno]
      rfl
  · have hkeep : w₃.tree.get? k = w₁.tree.get? k := by
      rw [hout₃ k, hkeep₂ k]
      · rintro f - rfl
        exact hk (List.prefix_append _ _)
      · rintro ⟨r, -, rfl⟩
        exact hk (List.prefix_append _ _)
    rw [hkeep]
    rcases hg₁ k with he | hnew | ⟨hno, -⟩
    · exact .inl he
    · exact .inr hnew
    · exact hno.elim

/-- Where the files of a domain have been written, the path to its handler is short enough. -/
theorem short_of_extract {files : List Path} (hw : w.Sound) (hopens : w.Opens ⟨.root, d⟩ d)
    (h : Template.domain.extract ⟨.root, d⟩ w = .ok files w') :
    Path.spelledSize d + 11 < pathLimit := by
  obtain ⟨-, -, -, hreach, -⟩ := Template.extract_eq_ok hopens hw.place h
  have hshort := (hreach ("handler.rs", Template.Domain.handler) (by simp [Template.domain])).short
  have hnames : Path.namesOf "handler.rs" = ["handler.rs"] := by decide
  have hsize : Path.spelledSize ["handler.rs"] = 11 := by decide
  rwa [Template.target, hnames, Path.utf8ByteSize_text_root (by simp), Path.spelledSize_append,
    hsize] at hshort

theorem directory_run (hw : w.Sound) (hfit : Fits d)
    (hne : d ≠ []) (hshort : Path.spelledSize d + 11 < pathLimit)
    (hway : ∀ k, k <+: d → ∀ content, w.tree.get? k ≠ some (.file content))
    (hbefore : Ready name d w.tree) :
    ∃ w₁ w₂ w₃ files rewritten, Work.ensureDirectory ⟨.root, d⟩ w = .ok () w₁ ∧
      Template.domain.extract ⟨.root, d⟩ w₁ = .ok files w₂ ∧ Placeholder.replaceBelow
        ⟨.root, d⟩ nameToken name Work.usualLevels w₂ = .ok rewritten w₃ := by
  obtain ⟨w₁, hmake⟩ := ensureDirectory_run hfit (by omega) hway
  obtain ⟨hb₁, hw₁, hopens₁, hg₁⟩ := directory_made hw hfit hmake
  obtain ⟨files, w₂, hextract⟩ :=
    Template.extract_run hopens₁ hw₁.place ((hbefore.room hne hshort).above hg₁ fun _ h _ => h)
  have hw₂ := Template.sound_of_extract hw₁ hopens₁ hextract
  obtain ⟨-, hb₂, hg₂, -⟩ := Template.extract_eq_ok hopens₁ hw₁.place hextract
  have hentries : ∀ r n, w₁.tree.get? (d ++ r) = some n → Work.Near ⟨.root, d⟩ r := by
    intro r n hr
    rcases hg₁ (d ++ r) with he | ⟨hway, -⟩ | ⟨hno, -⟩
    · exact hbefore.entriesNear hne hshort (he ▸ hr)
    · obtain rfl : r = [] := by
        by_contra hr
        exact not_prefix_of_append hr hway
      exact Work.near_nil hopens₁.1.short
    · exact hno.elim
  have hfiles : ∀ f ∈ Template.domain.files, Work.Near ⟨.root, d⟩ (Path.namesOf f.1) :=
    fun f hf => ⟨(hbefore.room hne hshort).short f hf, domain_shallow f hf⟩
  obtain ⟨rewritten, w₃, hreplace⟩ :=
    Placeholder.replaceBelow_run (by decide : nameToken ≠ "") name hw₂
    (hopens₁.grows hb₂ hg₂) (Template.near_of_grows hentries hfiles hg₂)
  exact ⟨w₁, w₂, w₃, files, rewritten, hmake, hextract, hreplace⟩

end ApiScaffold.Domain
