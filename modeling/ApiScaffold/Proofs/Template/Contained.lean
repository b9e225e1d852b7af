import ApiScaffold.Proofs.Template.Extract
import ApiScaffold.Proofs.Workspace.Confined

/-! Templates stay below the directory to which they are written. Those are refused in which a path
leads out of it. However the writing of another ends, files have changed at its paths below the
directory only, and beyond that only directories there and on the way have been made. Where it ends
well the last of the files at one place stands there; where it fails no file from the failing one on
has been written. -/
namespace ApiScaffold.Template
open FileTree
variable {name : String} {files : List (String × String)} {t : Template} {w w' : Workspace}
  {root : Path} {place : Location}

/-- The spelling of a path that does not start at the root and takes no step back. -/
def Inward (path : String) : Prop :=
  path.toList.head? ≠ some '/' ∧ "..".toList ∉ Text.segments '/' path.toList

theorem isUnsafe_eq_false_iff (path : String) : isUnsafe path = false ↔ Inward path := by
  have hbase : (Path.ofString path).isAbsolute = false ↔ path.toList.head? ≠ some '/' := by
    rw [← Path.ofChars_eq_here_iff, Path.isAbsolute, decide_eq_false_iff_not, not_not]
    rfl
  have hup : (Path.namesOf path).contains ".." = false ↔
      "..".toList ∉ Text.segments '/' path.toList := by
    rw [← Bool.not_eq_true, List.contains_iff_mem, Path.mem_namesOf]
    simp
  rw [isUnsafe, Bool.or_eq_false_iff, hbase, hup, Inward]

/-- A template can be made of files if and only if all their paths lead inward. -/
theorem ofFiles_eq_ok_iff (name : String) (files : List (String × String)) :
    (∃ t, ofFiles name files = .ok t) ↔ ∀ f ∈ files, Inward f.1 := by
  have hok : (∃ t, ofFiles name files = .ok t) ↔ ¬ ∃ e, ofFiles name files = .error e := by
    cases ofFiles name files <;> simp
  rw [hok, ofFiles_eq_error_iff]
  push Not
  refine forall₂_congr fun f _ => ?_
  rw [← isUnsafe_eq_false_iff, ne_eq, Bool.not_eq_true]

theorem mem_files_of_ofFiles (hmapping : (files.map Prod.fst).Nodup)
    (h : ofFiles name files = .ok t) (f : String × String) : f ∈ t.files ↔ f ∈ files := by
  have hfiles : t.files = (Std.ExtTreeMap.ofList files compare).toList := by
    unfold ofFiles at h
    split at h
    · cases h
    · obtain rfl := Except.ok.inj h
      rfl
  have hdistinct : files.Pairwise fun a b => ¬ compare a.1 b.1 = .eq := by
    rw [List.nodup_iff_pairwise_ne, List.pairwise_map] at hmapping
    exact hmapping.imp fun hne he => hne (Std.compare_eq_iff_eq.1 he)
  obtain ⟨path, text⟩ := f
  rw [hfiles, Std.ExtTreeMap.mem_toList_iff_getElem?_eq_some]
  constructor
  · intro hget
    have hm : path ∈ Std.ExtTreeMap.ofList files compare := by
      rw [← Std.ExtTreeMap.isSome_getElem?_iff_mem, hget]
      rfl
    rw [Std.ExtTreeMap.mem_ofList, List.contains_iff_mem, List.mem_map] at hm
    obtain ⟨⟨path', text'⟩, hm, rfl⟩ := hm
    rw [Std.ExtTreeMap.getElem?_ofList_of_mem Std.compare_self hdistinct hm] at hget
    obtain rfl := Option.some.inj hget
    exact hm
  · exact Std.ExtTreeMap.getElem?_ofList_of_mem Std.compare_self hdistinct

theorem paths_pairwise (t : Template) : t.paths.Pairwise (· < ·) := by
  rw [paths, List.pairwise_map]
  exact t.ordered.imp fun h => compareOfLessAndEq_eq_lt.1 h

/-- The directory itself and places on the way to it and below. -/
def Near (place : Location) (root : Path) (l : Location) : Prop :=
  Work.Along place root l ∨ placeOf place root <+: l

theorem near_of_along {path : String} {l : Location} (hup : ".." ∉ Path.namesOf path)
    (h : Work.Along place (target root path).parent l) : Near place root l := by
  obtain ⟨names, hnames, rfl⟩ := h
  have hprefix : names <+: root.names ++ Path.namesOf path := hnames.trans (List.dropLast_prefix _)
  rcases List.prefix_or_prefix_of_prefix hprefix
    (List.prefix_append root.names _) with habove | ⟨ms, rfl⟩
  · exact .inl ⟨names, habove, rfl⟩
  · have hms : ms <+: Path.namesOf path := (List.prefix_append_right_inj root.names).1 hprefix
    refine .inr ⟨ms, ?_⟩
    exact (placeOf_append (fun hm => hup (hms.mem hm)) place root).symm

/-- Files have changed at the places of some files of a template only, and beyond that directories
have been made near the directory to which it is written. -/
structure Filled (root : Path) (files : List (String × String)) (w w' : Workspace) : Prop where
  beside : w.Beside w'
  grows : Grows (Near w.place root)
    (fun l => ∃ f ∈ files, l = placeOf w.place root ++ Path.namesOf f.1) w.tree w'.tree

theorem confined_makeParent {written : Location → Prop}
    {path : String} (hup : ".." ∉ Path.namesOf path) : Work.Confined place (Near place root) written
    (Work.ensureDirectory (target root path).parent) :=
  (Work.confined_ensureDirectory _).mono (fun _ h => near_of_along hup h) fun _ h => h

theorem confined_writeFile {file : String × String} (hup : ".." ∉ Path.namesOf file.1) :
    Work.Confined place (Near place root) (· = placeOf place root ++ Path.namesOf file.1)
      (writeFile root file) := by
  apply (confined_makeParent hup).bind
  intro _
  have hwrite :
      Work.Confined place (Near place root) (· = placeOf place root ++ Path.namesOf file.1)
      (Work.writeText (target root file.1) file.2) :=
    Work.confined_writeText _ _ (placeOf_append hup place root)
  exact hwrite.bind fun _ => Work.confined_pure _

theorem confined_mapM_writeFile (hup : ∀ f ∈ files, ".." ∉ Path.namesOf f.1) : Work.Confined place
    (Near place root) (fun l => ∃ f ∈ files, l = placeOf place root ++ Path.namesOf f.1)
      (files.mapM (writeFile root)) := by
  apply Work.Confined.mapM
  intro f hf
  exact (confined_writeFile (hup f hf)).mono (fun l h => h) fun l h => ⟨f, hf, h⟩

/-- A file that cannot be written has left directories at most. -/
theorem confined_of_writeFile_error {file : String × String}
    {e : Failure} (hup : ".." ∉ Path.namesOf file.1) (h : writeFile root file w = .error e w') :
    w.Beside w' ∧ Grows (Near w.place root) (fun _ => False) w.tree w'.tree := by
  have hmake : Work.Confined w.place (Near w.place root) (fun _ => False) _ :=
    confined_makeParent hup
  rcases Work.bind_eq_error_iff.1 h with herror | ⟨u, w₁, hmade, hrest⟩
  · exact hmake.of_error rfl herror
  · rcases Work.bind_eq_error_iff.1 hrest with hwrite | ⟨v, w₂, -, hpure⟩
    · obtain rfl := Work.writeText_error hwrite
      exact hmake.of_ok rfl hmade
    · cases hpure

theorem get?_of_writeFile {file : String × String} {p : Path} (hup : ".." ∉ Path.namesOf file.1)
    (h : writeFile root file w = .ok p w') : p = target root file.1 ∧ w'.tree.get?
      (placeOf w.place root ++ Path.namesOf file.1) = some (.file (Text.encode file.2)) := by
  obtain ⟨u, w₁, hmade, hrest⟩ := Work.bind_eq_ok_iff.1 h
  obtain ⟨v, w₂, hwrite, hpure⟩ := Work.bind_eq_ok_iff.1 hrest
  obtain ⟨rfl, rfl⟩ := EStateM.Result.ok.inj hpure
  obtain ⟨hb, -⟩ := Work.ensureDirectory_eq_ok hmade
  obtain ⟨l, t, hr, ht, rfl⟩ := Work.writeText_eq_ok hwrite
  have hl : l = placeOf w.place root ++ Path.namesOf file.1 :=
    (hb.place ▸ hr.eq).trans (placeOf_append hup w.place root)
  exact ⟨rfl, by rw [get?_of_writeAt ht, if_pos hl]⟩

/-- Of files written one after the other the last at each place is there. -/
theorem last_of_mapM_writeFile {written : List Path}
    (hordered : files.Pairwise fun f g => f.1 < g.1) (hup : ∀ f ∈ files, ".." ∉ Path.namesOf f.1)
    (h : files.mapM (writeFile root) w = .ok written w') :
    written = files.map (fun f => target root f.1) ∧ ∀ f ∈ files, ∃ g ∈ files, Path.namesOf g.1 =
      Path.namesOf f.1 ∧ (∀ k ∈ files, Path.namesOf k.1 = Path.namesOf f.1 → k.1 ≤ g.1) ∧
      w'.tree.get? (placeOf w.place root ++ Path.namesOf f.1) = some (.file (Text.encode g.2)) := by
  induction files generalizing w written with
  | nil =>
    obtain ⟨rfl, -⟩ := EStateM.Result.ok.inj h
    exact ⟨rfl, by simp⟩
  | cons f files ih =>
    obtain ⟨p, w₁, ps, hf, hrest, rfl⟩ := Work.mapM_cons_eq_ok_iff.1 h
    obtain ⟨hlater, hordered'⟩ := List.pairwise_cons.1 hordered
    obtain ⟨hupf, hups⟩ := List.forall_mem_cons.1 hup
    obtain ⟨rfl, hget⟩ := get?_of_writeFile hupf hf
    have hplace : w₁.place = w.place := ((confined_writeFile hupf).of_ok rfl hf).1.place
    obtain ⟨rfl, hlast⟩ := ih hordered' hups hrest
    rw [hplace] at hlast
    -- a later file at the place of another is the last there as well
    have hfound : ∀ k ∈ files, ∃ g ∈ f :: files, Path.namesOf g.1 = Path.namesOf k.1 ∧
        (∀ k' ∈ f :: files, Path.namesOf k'.1 = Path.namesOf k.1 → k'.1 ≤ g.1) ∧ w'.tree.get?
        (placeOf w.place root ++ Path.namesOf k.1) = some (.file (Text.encode g.2)) := by
      intro k hk
      obtain ⟨g, hg, hsame, hmax, hcontent⟩ := hlast k hk
      refine ⟨g, List.mem_cons_of_mem f hg, hsame, ?_, hcontent⟩
      intro k' hk' hsame'
      rcases List.mem_cons.1 hk' with rfl | hk'
      · exact Std.le_of_lt (hlater g hg)
      · exact hmax k' hk' hsame'
    refine ⟨rfl, List.forall_mem_cons.2 ⟨?_, hfound⟩⟩
    by_cases hagain : ∃ k ∈ files, Path.namesOf k.1 = Path.namesOf f.1
    · obtain ⟨k, hk, hsame⟩ := hagain
      rw [← hsame]
      exact hfound k hk
    · refine ⟨f, List.mem_cons_self, rfl, fun k hk hsame => ?_, ?_⟩
      · rcases List.mem_cons.1 hk with rfl | hk
        · exact Std.le_refl _
        · exact absurd ⟨k, hk, hsame⟩ hagain
      · obtain ⟨-, hg⟩ := (confined_mapM_writeFile hups).of_ok rfl hrest
        apply hg.of_not_written hget
        rintro ⟨k, hk, he⟩
        rw [hplace] at he
        exact hagain ⟨k, hk, (List.append_cancel_left he).symm⟩

theorem filled_of_left (t : Template) (root : Path) (w : Workspace) :
    Filled root t.files w (Work.left (t.extract root) w) := by
  have hconfined : Work.Confined w.place (Near w.place root)
      (fun l => ∃ f ∈ t.files, l = placeOf w.place root ++ Path.namesOf f.1) (t.extract root) := by
    apply (confined_mapM_writeFile fun f hf => (t.safe f hf).2).bind
    intro written
    exact (Work.confined_note _ _ _).bind fun _ => Work.confined_pure _
  obtain ⟨hb, hg⟩ := hconfined w rfl
  exact ⟨hb, hg⟩

theorem last_of_extract {written : List Path} (h : t.extract root w = .ok written w') :
    written = t.paths.map (target root) ∧ ∀ f ∈ t.files, ∃ g ∈ t.files, Path.namesOf g.1 =
      Path.namesOf f.1 ∧ (∀ k ∈ t.files, Path.namesOf k.1 = Path.namesOf f.1 → k.1 ≤ g.1) ∧
      w'.tree.get? (placeOf w.place root ++ Path.namesOf f.1) = some (.file (Text.encode g.2)) := by
  obtain ⟨paths, w₁, hmap, hrest⟩ := Work.bind_eq_ok_iff.1 h
  obtain ⟨u, w₂, hnote, hpure⟩ := Work.bind_eq_ok_iff.1 hrest
  obtain ⟨rfl, rfl⟩ := EStateM.Result.ok.inj hpure
  rw [Work.note_run] at hnote
  obtain ⟨-, rfl⟩ := EStateM.Result.ok.inj hnote
  have hordered : t.files.Pairwise fun f g => f.1 < g.1 := List.pairwise_map.1 t.paths_pairwise
  obtain ⟨rfl, hlast⟩ := last_of_mapM_writeFile hordered (fun f hf => (t.safe f hf).2) hmap
  exact ⟨by rw [paths, List.map_map]; rfl, hlast⟩

/-- Where the writing fails only the files before the failing one have been written. -/
theorem filled_of_error {e : Failure} (h : t.extract root w = .error e w') : ∃ f ∈ t.files,
    (∃ w₁, writeFile root f w₁ = .error e w') ∧
    Filled root (t.files.filter fun g => g.1 < f.1) w w' := by
  rcases Work.bind_eq_error_iff.1 h with hmap | ⟨paths, w₁, -, hrest⟩
  · obtain ⟨earlier, f, later, paths, w₁, hsplit, hearlier, hf⟩ := Work.mapM_eq_error hmap
    have hup : ∀ g ∈ earlier ++ f :: later, ".." ∉ Path.namesOf g.1 :=
      hsplit ▸ fun g hg => (t.safe g hg).2
    have hfm : f ∈ earlier ++ f :: later := by simp
    have hordered : (earlier ++ f :: later).Pairwise fun f g => f.1 < g.1 :=
      hsplit ▸ List.pairwise_map.1 t.paths_pairwise
    have hbefore : ∀ g ∈ earlier, g ∈ t.files.filter fun g => g.1 < f.1 := by
      intro g hg
      rw [List.mem_filter, decide_eq_true_eq, hsplit]
      exact ⟨List.mem_append_left _ hg,
        (List.pairwise_append.1 hordered).2.2 g hg f List.mem_cons_self⟩
    have hupe : ∀ g ∈ earlier, ".." ∉ Path.namesOf g.1 :=
      fun g hg => hup g (List.mem_append_left _ hg)
    obtain ⟨hb, hg⟩ := (confined_mapM_writeFile hupe).of_ok rfl hearlier
    obtain ⟨hb', hg'⟩ := confined_of_writeFile_error (hup f hfm) hf
    rw [hb.place] at hg'
    refine ⟨f, hsplit ▸ hfm, ⟨w₁, hf⟩, hb.trans hb', ?_⟩
    apply Grows.trans (hg.mono (fun l hl _ => hl) fun l hl _ => ?_)
    · exact hg'.mono (fun l hl _ => hl) fun l hno _ => hno.elim
    · obtain ⟨g, hgm, hl⟩ := hl
      exact ⟨g, hbefore g hgm, hl⟩
  · rcases Work.bind_eq_error_iff.1 hrest with hnote | ⟨u, w₂, -, hpure⟩
    · cases hnote
    · cases hpure

/-- Templates are made of inward paths, and writing one keeps below the directory however it
ends. -/
theorem extract_contained (name : String) (files : List (String × String))
    (hmapping : (files.map Prod.fst).Nodup) :
    ((∃ t, ofFiles name files = .ok t) ↔ ∀ f ∈ files, Inward f.1) ∧
      ∀ t, ofFiles name files = .ok t → (∀ f, f ∈ t.files ↔ f ∈ files) ∧
        t.paths.Pairwise (· < ·) ∧ ∀ root w, Filled root t.files w (Work.left (t.extract root) w) ∧
        (∀ written w', t.extract root w = .ok written w' → written = t.paths.map (target root) ∧
          ∀ f ∈ t.files, ∃ g ∈ t.files, Path.namesOf g.1 = Path.namesOf f.1 ∧
            (∀ k ∈ t.files, Path.namesOf k.1 = Path.namesOf f.1 → k.1 ≤ g.1) ∧
            w'.tree.get? (placeOf w.place root ++ Path.namesOf f.1) =
              some (.file (Text.encode g.2))) ∧
        ∀ e w', t.extract root w = .error e w' →
          ∃ f ∈ t.files, (∃ w₁, writeFile root f w₁ = .error e w') ∧
            Filled root (t.files.filter fun g => g.1 < f.1) w w' := by
  refine ⟨ofFiles_eq_ok_iff name files,
    fun t ht => ⟨mem_files_of_ofFiles hmapping ht, t.paths_pairwise, ?_⟩⟩
  intro root w
  exact ⟨filled_of_left t root w, fun written w' h => last_of_extract h,
    fun e w' h => filled_of_error h⟩

/-- Of two paths to one place the greater counts. -/
theorem extract_contained_alias : ∃ t written w',
    ofFiles "fixture" [("a.txt", "A"), ("./a.txt", "B"), ("sub//c.txt", "C")] = .ok t ∧
    t.extract ⟨.here, []⟩ Workspace.bare = .ok written w' ∧
    w'.tree.get? ["a.txt"] = some (.file (Text.encode "A")) := by
  let files := [("a.txt", "A"), ("./a.txt", "B"), ("sub//c.txt", "C")]
  obtain ⟨hiff, hall⟩ := extract_contained "fixture" files (by decide)
  have hinward : ∀ f ∈ files, Inward f.1 := by
    unfold Inward
    decide
  obtain ⟨t, ht⟩ := hiff.2 hinward
  obtain ⟨hmem, -, hrun⟩ := hall t ht
  have hopens : Workspace.bare.Opens ⟨.here, []⟩ [] := Workspace.opens_up (n := 0) rfl (by decide)
  have hroom : Room Workspace.bare ⟨.here, []⟩ [] files := by
    constructor
    · decide
    · decide
    · decide
    · exact fun f _ ms _ content => Workspace.get?_bare_ne_file ([] ++ ms) content
    · intro f hf
      have hne : Path.namesOf f.1 ≠ [] := by
        revert f
        decide
      simp [Workspace.bare, get?_empty hne]
    · decide
  obtain ⟨written, w', hw'⟩ := extract_run hopens fits_nil (hroom.of_mem fun f hf => (hmem f).1 hf)
  obtain ⟨-, hok, -⟩ := hrun ⟨.here, []⟩ Workspace.bare
  obtain ⟨-, hlast⟩ := hok written w' hw'
  obtain ⟨g, hg, hsame, hmax, hget⟩ := hlast ("a.txt", "A") ((hmem _).2 (by decide))
  refine ⟨t, written, w', ht, hw', ?_⟩
  have hle : "a.txt" ≤ g.1 := hmax ("a.txt", "A") ((hmem _).2 (by decide)) rfl
  have hfirst : ∀ g ∈ files, Path.namesOf g.1 = Path.namesOf "a.txt" → "a.txt" ≤ g.1 →
      g.2 = "A" := by
    decide
  rw [← hfirst g ((hmem g).1 hg) hsame hle]
  exact hget

end ApiScaffold.Template
