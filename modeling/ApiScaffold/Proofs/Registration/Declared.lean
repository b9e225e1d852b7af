import ApiScaffold.Proofs.Registration.ModuleList

/-! Runs of registrations in a module list, which may be missing or any text. A name is declared
where it was not, once, and a run made again finds all its names declared. -/
namespace ApiScaffold.ModuleList
variable {w w' : Workspace} {file : Path} {l : Location} {m n name : String} {s t : String}
  {done names : List String}

/-- A list with declarations put below it, or the list itself. -/
def extended (s : List Char) (names : List String) : List Char :=
  if names = [] then s else opened s ++ Text.ended (names.map declaration)

/-- The names that a list does not declare, each once, in the order of the requests. -/
def fresh (s : List Char) (names : List String) : List String :=
  (names.filter fun name => !declares name s).eraseDups

/-- At a place a list is kept: as a file that holds it, or the empty list as nothing in a
directory. -/
def Keeps (w : Workspace) (l : Location) (s : String) : Prop :=
  w.tree.get? l = some (.file (Text.encode s)) ∨
    s = "" ∧ w.tree.get? l = none ∧ w.tree.get? l.dropLast = some .directory

/-- Requests the registration of names, one after the other. -/
def registerAll (file : Path) (names : List String) : Work (List Bool) :=
  names.mapM (registerIn file)

theorem extended_nil (s : List Char) : extended s [] = s :=
  if_pos rfl

theorem extended_of_ne {s : List Char} (h : names ≠ []) :
    extended s names = opened s ++ Text.ended (names.map declaration) :=
  if_neg h

theorem declares_iff {s : List Char} :
    declares name s = true ↔ ∃ line ∈ Text.lines s, Text.strip line = declaration name := by
  simp [declares]

theorem declares_eq_false_iff {s : List Char} :
    declares name s = false ↔ ∀ line ∈ Text.lines s, Text.strip line ≠ declaration name := by
  rw [← Bool.not_eq_true, declares_iff]
  simp

/-- Lines with the names of modules declare these modules besides those declared above. -/
theorem declares_extended {s : List Char} (hn : ∀ n ∈ names, OneLine n.toList) :
    declares name (extended s names) = true ↔ declares name s = true ∨ name ∈ names := by
  by_cases hempty : names = []
  · simp [hempty, extended_nil]
  have hblank : Text.strip [] ≠ declaration name := by
    intro h
    have := head?_declaration name
    rw [← h] at this
    cases this
  have hadded : Text.lines (Text.ended (names.map declaration)) = names.map declaration := by
    refine Text.lines_ended fun line hl => ?_
    obtain ⟨n, hm, rfl⟩ := List.mem_map.1 hl
    exact (hn n hm).declaration
  have hold : (∃ line ∈ Text.lines (opened s), Text.strip line = declaration name) ↔
      declares name s = true := by
    rw [declares_iff]
    rcases lines_opened s with h | h
    · rw [h]
    · rw [h]
      simp [hblank]
  have hnew : (∃ line ∈ names.map declaration, Text.strip line = declaration name) ↔
      name ∈ names := by
    constructor
    · rintro ⟨line, hl, he⟩
      obtain ⟨n, hm, rfl⟩ := List.mem_map.1 hl
      rw [strip_declaration, declaration_inj] at he
      exact he ▸ hm
    · exact fun hm => ⟨declaration name, List.mem_map_of_mem hm, strip_declaration name⟩
  rw [extended_of_ne hempty, declares_iff, Text.lines_append (opened_ended s),
    hadded, ← hold, ← hnew]
  simp only [List.mem_append, or_and_right, exists_or]

theorem opened_of_ended {s : List Char} (h : s = [] ∨ s.getLast? = some '\n') : opened s = s :=
  if_pos h

theorem append_eq_extended (name : String) (s : List Char) : append name s = extended s [name] :=
  append_eq name s

theorem extended_extended (s : List Char) (names more : List String) :
    extended (extended s names) more = extended s (names ++ more) := by
  by_cases hn : names = []
  · rw [hn, extended_nil, List.nil_append]
  by_cases hm : more = []
  · rw [hm, extended_nil, List.append_nil]
  have hlast : (opened s ++ Text.ended (names.map declaration)).getLast? = some '\n' := by
    obtain ⟨front, last, rfl⟩ : ∃ front last, names = front ++ [last] :=
      ⟨_, _, (List.dropLast_append_getLast hn).symm⟩
    simp [Text.ended]
  rw [extended_of_ne hm, extended_of_ne hn,
    extended_of_ne (List.append_ne_nil_of_left_ne_nil hn more), opened_of_ended (.inr hlast)]
  simp [Text.ended]

theorem mem_fresh {s : List Char} :
    name ∈ fresh s names ↔ name ∈ names ∧ declares name s = false := by
  simp [fresh, List.mem_eraseDups]

/-- A name is fresh unless it is declared above or by an earlier request. -/
theorem fresh_append (s : List Char) (names : List String) (name : String) :
    fresh s (names ++ [name]) =
    fresh s names ++ if declares name s = true ∨ name ∈ fresh s names then [] else [name] := by
  unfold fresh
  rw [List.filter_append, List.eraseDups_append]
  by_cases hd : declares name s = true
  · simp [hd]
  · have hd' : declares name s = false := by simpa using hd
    have hrest : [name].removeAll (names.filter fun n => !declares n s) = if name ∈ names then []
        else [name] := by
      by_cases hm : name ∈ names <;> simp [List.removeAll, hm, hd']
    simp only [List.filter_cons, hd', Bool.not_false, if_true, List.filter_nil, hrest,
      List.mem_eraseDups, List.mem_filter, Bool.false_eq_true, false_or, and_true]
    split <;> simp [List.eraseDups_cons]

theorem declares_of_mem {s : List Char} (hn : ∀ n ∈ names, OneLine n.toList) (hm : name ∈ names) :
    declares name (extended s (fresh s names)) = true := by
  rw [declares_extended fun n h => hn n (mem_fresh.1 h).1, mem_fresh]
  cases declares name s <;> simp [hm]

/-- At a place the declarations of names come to a list, if there are any, and all else stays. -/
def Adds (l : Location) (s : String) (names : List String) (before after : FileTree) : Prop :=
  ∀ k, after.get? k = if l = k ∧
    names ≠ [] then some (.file (Text.encode (String.ofList (extended s.toList names))))
    else before.get? k

theorem Adds.eq_of_nil {before after : FileTree} (h : Adds l s [] before after) :
    after = before := by
  ext1 k
  simpa using h k

/-- A list with names added is kept where the list was. -/
theorem Adds.keeps (ha : Adds l s names w.tree w'.tree) (h : Keeps w l s) :
    Keeps w' l (String.ofList (extended s.toList names)) := by
  by_cases hn : names = []
  · subst hn
    rw [Keeps, ha.eq_of_nil, extended_nil, String.ofList_toList]
    exact h
  · exact .inl (by rw [ha l, if_pos ⟨rfl, hn⟩])

theorem Keeps.room (h : Keeps w l s) :
    w.tree.get? l ≠ some .directory ∧ w.tree.get? l.dropLast = some .directory := by
  rcases h with hl | ⟨-, hl, hd⟩
  · exact ⟨by simp [hl], FileTree.get?_dropLast hl⟩
  · exact ⟨by simp [hl], hd⟩

theorem Adds.reaches (ha : Adds l s names w.tree w'.tree) (h : Keeps w l s) (hb : w.Beside w')
    (hr : w.Reaches file l) : w'.Reaches file l := by
  have hg : FileTree.Grows (fun _ => False) (· = l) w.tree w'.tree := by
    intro k
    by_cases hk : l = k ∧ names ≠ []
    · obtain ⟨rfl, hn⟩ := hk
      exact .inr (.inr ⟨rfl, h.room.1, _, by rw [ha l, if_pos ⟨rfl, hn⟩]⟩)
    · exact .inl (by rw [ha k, if_neg hk])
  exact hr.grows hb hg

theorem Adds.trans {more : List String} {a b c : FileTree} (h : Adds l s names a b)
    (h' : Adds l (String.ofList (extended s.toList names)) more b c) :
    Adds l s (names ++ more) a c := by
  intro k
  rw [h' k, h k, String.toList_ofList, extended_extended]
  by_cases hm : more = []
  · simp [hm]
  · by_cases hk : l = k <;> simp [hk, hm]

theorem Keeps.textOrEmpty (h : Keeps w l s) (hr : w.Reaches file l) :
    textOrEmpty file w = .ok s w := by
  rcases h with hl | ⟨rfl, hl, -⟩
  · exact Work.tryCatch_of_ok (Work.readText_eq_ok_iff.2 ⟨rfl, l, hr, hl⟩) _
  · exact Work.tryCatch_of_error (Work.readText_of_missing hr hl) _

/-- One request: what is declared is left alone, and what is not is put below all the rest. -/
theorem registerIn_keeps (name : String) (h : Keeps w l s) (hr : w.Reaches file l) :
    ∃ w', registerIn file name w = .ok (!declares name s.toList) w' ∧ w.Beside w' ∧
      Adds l s (if declares name s.toList = true then [] else [name]) w.tree w'.tree := by
  unfold registerIn
  rw [Work.bind_of_ok (h.textOrEmpty hr)]
  cases hd : declares name s.toList with
  | true => exact ⟨_, rfl, ⟨_, _, rfl⟩, fun k => by simp⟩
  | false =>
    obtain ⟨t, ht, hget⟩ :=
      Work.writeText_of_reaches hr h.room.1 h.room.2 (String.ofList (append name s.toList))
    refine ⟨_, Work.bind_of_ok ht _, ⟨t, _, rfl⟩, fun k => ?_⟩
    simp [hget, append_eq_extended]

theorem registerAll_append_eq_ok_iff {flags : List Bool} :
    registerAll file (done ++ names) w = .ok flags w' ↔ ∃ earlier later w₁,
      registerAll file done w = .ok earlier w₁ ∧ registerAll file names w₁ = .ok later w' ∧
      flags = earlier ++ later := by
  unfold registerAll
  rw [List.mapM_append, Work.bind_eq_ok_iff]
  constructor
  · rintro ⟨earlier, w₁, h, hrest⟩
    obtain ⟨later, w₂, h', he⟩ := Work.bind_eq_ok_iff.1 hrest
    obtain ⟨rfl, rfl⟩ := EStateM.Result.ok.inj he
    exact ⟨earlier, later, w₁, h, h', rfl⟩
  · rintro ⟨earlier, later, w₁, h, h', rfl⟩
    exact ⟨earlier, w₁, h, Work.bind_of_ok h' _⟩

theorem registerAll_cons_eq_ok_iff {flags : List Bool} :
    registerAll file (name :: names) w = .ok flags w' ↔ ∃ flag w₁ later,
      registerIn file name w = .ok flag w₁ ∧ registerAll file names w₁ = .ok later w' ∧
      flags = flag :: later :=
  Work.mapM_cons_eq_ok_iff

theorem registerAll_adds (h : Keeps w l s)
    (hr : w.Reaches file l) (hn : ∀ n ∈ names, OneLine n.toList) :
    ∃ flags w', registerAll file names w = .ok flags w' ∧ w.Beside w' ∧
      Adds l s (fresh s.toList names) w.tree w'.tree := by
  induction names using List.reverseRecOn with
  | nil => exact ⟨[], w, rfl, .refl w, fun k => by simp [fresh]⟩
  | append_singleton names name ih =>
    have hdone : ∀ n ∈ names, OneLine n.toList := fun n hm => hn n (List.mem_append_left _ hm)
    obtain ⟨flags, w₁, hrun, hb, ha⟩ := ih hdone
    obtain ⟨w₂, hlast, hb', ha'⟩ := registerIn_keeps name (ha.keeps h) (ha.reaches h hb hr)
    have hend : registerAll file [] w₂ = .ok [] w₂ := rfl
    have hone := registerAll_cons_eq_ok_iff.2 ⟨_, w₂, [], hlast, hend, rfl⟩
    refine ⟨_, w₂, registerAll_append_eq_ok_iff.2 ⟨flags, _, w₁, hrun, hone, rfl⟩, hb.trans hb', ?_⟩
    have hdecl : declares name (String.ofList (extended s.toList (fresh s.toList names))).toList =
        true ↔ declares name s.toList = true ∨ name ∈ fresh s.toList names := by
      rw [String.toList_ofList]
      exact declares_extended fun n hm => hdone n (mem_fresh.1 hm).1
    rw [fresh_append]
    simp only [hdecl] at ha'
    exact ha.trans ha'

theorem registerAll_of_declared (h : Keeps w l s) (hr : w.Reaches file l)
    (hd : ∀ n ∈ names, declares n s.toList = true) :
    ∃ w', registerAll file names w = .ok (names.map fun _ => false) w' ∧ w'.tree = w.tree := by
  induction names generalizing w with
  | nil => exact ⟨w, rfl, rfl⟩
  | cons name names ih =>
    obtain ⟨w₁, hrun, hb, ha⟩ := registerIn_keeps name h hr
    rw [hd name List.mem_cons_self] at hrun
    rw [if_pos (hd name List.mem_cons_self)] at ha
    have hkeeps := ha.keeps h
    rw [extended_nil, String.ofList_toList] at hkeeps
    obtain ⟨w₂, hrest, htree⟩ :=
      ih hkeeps (ha.reaches h hb hr) fun n hm => hd n (List.mem_cons_of_mem name hm)
    refine ⟨w₂, registerAll_cons_eq_ok_iff.2 ⟨_, w₁, _, hrun, hrest, rfl⟩, ?_⟩
    rw [htree, ha.eq_of_nil]

/-- Requests for names of one line, in a list that is a text or missing in a directory, all end
well. Each tells that it wrote if no line of the list was the declaration, apart from blanks, and
else changes nothing. In the end the list is the old one, its last line ended where anything
follows, with the declarations of the names that it lacked, each once, in the order of the first
requests. Made again, the requests change nothing. -/
theorem registerAll_declares (h : Keeps w l s)
    (hr : w.Reaches file l) (hn : ∀ n ∈ names, OneLine n.toList) :
    ∃ flags w', registerAll file names w = .ok flags w' ∧ w.Beside w' ∧
      (∀ done name rest, names = done ++ name :: rest → ∃ earlier w₁ flag w₂ later t,
        registerAll file done w = .ok earlier w₁ ∧ registerIn file name w₁ = .ok flag w₂ ∧
        registerAll file rest w₂ = .ok later w' ∧ flags = earlier ++ flag :: later ∧ Keeps w₁ l t ∧
        (flag = true ↔ ∀ line ∈ Text.lines t.toList, Text.strip line ≠ declaration name) ∧
        (flag = false → w₂.tree = w₁.tree)) ∧
      (∀ k, w'.tree.get? k = if l = k ∧ fresh s.toList names ≠ [] then
        some (.file (Text.encode (String.ofList (extended s.toList (fresh s.toList names)))))
          else w.tree.get? k) ∧
      ∃ w'', registerAll file names w' = .ok (names.map fun _ => false) w'' ∧
        w''.tree = w'.tree := by
  obtain ⟨flags, w', hrun, hb, ha⟩ := registerAll_adds h hr hn
  refine ⟨flags, w', hrun, hb, fun done name rest he => ?_, ha, ?_⟩
  · subst he
    obtain ⟨earlier, tail, w₁, hdone, htail, rfl⟩ := registerAll_append_eq_ok_iff.1 hrun
    obtain ⟨flag, w₂, later, hcall, hrest, rfl⟩ := registerAll_cons_eq_ok_iff.1 htail
    obtain ⟨earlier', w₁', hdone', hb₁, ha₁⟩ :=
      registerAll_adds h hr fun n hm => hn n (List.mem_append_left (name :: rest) hm)
    obtain ⟨rfl, rfl⟩ := EStateM.Result.ok.inj (hdone.symm.trans hdone')
    have hkeeps := ha₁.keeps h
    obtain ⟨w₂', hcall', -, ha₂⟩ := registerIn_keeps name hkeeps (ha₁.reaches h hb₁ hr)
    obtain ⟨rfl, rfl⟩ := EStateM.Result.ok.inj (hcall.symm.trans hcall')
    refine ⟨earlier, w₁, _, w₂, later, _, hdone, hcall, hrest, rfl, hkeeps, ?_, fun hflag => ?_⟩
    · rw [Bool.not_eq_true', declares_eq_false_iff]
    · rw [Bool.not_eq_false'] at hflag
      rw [if_pos hflag] at ha₂
      exact ha₂.eq_of_nil
  · refine registerAll_of_declared (ha.keeps h) (ha.reaches h hb hr) fun n hm => ?_
    rw [String.toList_ofList]
    exact declares_of_mem hn hm

/-- A list whose last line has no end, with a declaration between blanks behind another
kind of line end. -/
theorem registerAll_declares_four : ∃ w flags w' w'',
    w.tree.get? ["mod.rs"] = some (.file (Text.encode "// modules\x0b\tpub mod users; ")) ∧
    registerAll ⟨.here, ["mod.rs"]⟩ ["orders", "users", "orders", "tags"] w = .ok flags w' ∧
    w'.tree.get? ["mod.rs"] = some
      (.file (Text.encode "// modules\x0b\tpub mod users; \npub mod orders;\npub mod tags;\n")) ∧
    registerAll ⟨.here, ["mod.rs"]⟩ ["orders", "users", "orders", "tags"] w' =
      .ok [false, false, false, false] w'' ∧ w''.tree = w'.tree := by
  have hfit : FileTree.Fits ["mod.rs"] := by
    unfold FileTree.Fits
    decide
  have hline : ∀ n ∈ ["orders", "users", "orders", "tags"], OneLine n.toList := by decide
  obtain ⟨w, hr, hl⟩ := Workspace.exists_file hfit "// modules\x0b\tpub mod users; "
  obtain ⟨flags, w', hrun, -, -, hget, w'', hagain, htree⟩ :=
    registerAll_declares (.inl hl) hr hline
  refine ⟨w, flags, w', w'', hl, hrun, ?_, hagain, htree⟩
  have hnew : fresh "// modules\x0b\tpub mod users; ".toList ["orders", "users", "orders", "tags"] =
      ["orders", "tags"] := by decide
  rw [hget, hnew, if_pos (by simp)]
  have htext :
      String.ofList (extended "// modules\x0b\tpub mod users; ".toList ["orders", "tags"]) =
      "// modules\x0b\tpub mod users; \npub mod orders;\npub mod tags;\n" := by
    decide
  rw [htext]

end ApiScaffold.ModuleList
