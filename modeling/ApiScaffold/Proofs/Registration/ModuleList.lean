import ApiScaffold.Proofs.Text.Lines
import ApiScaffold.Proofs.Workspace.Failure
import ApiScaffold.Proofs.Workspace.Journal
import ApiScaffold.Registration.ModuleList

/-! Module lists: a registration keeps the lines of the list, and writes to its file or nowhere. A
list that grew from one line by registrations declares each name once, in the order of their first
registrations. -/
namespace ApiScaffold.ModuleList
variable {w w' : Workspace} {file : Path} {name s : String} {l : Location} {head : List Char}
  {names : List String}

def Found (w : Workspace) (file : Path) (s : String) : Prop :=
  Work.readText file w = .ok s w ∨ s = "" ∧ ∀ t, Work.readText file w ≠ .ok t w

theorem textOrEmpty_eq_ok (h : textOrEmpty file w = .ok s w') : w' = w ∧ Found w file s := by
  unfold textOrEmpty at h
  cases hr : Work.readText file w with
  | ok t w₁ =>
    rw [Work.tryCatch_of_ok hr] at h
    obtain ⟨rfl, rfl⟩ := EStateM.Result.ok.inj h
    obtain ⟨rfl, -⟩ := Work.readText_eq_ok_iff.1 hr
    exact ⟨rfl, .inl hr⟩
  | error e w₁ =>
    rw [Work.tryCatch_of_error hr] at h
    obtain rfl := Work.readText_error hr
    have hno : ∀ t, Work.readText file w₁ ≠ .ok t w₁ := by
      intro t ht
      rw [hr] at ht
      cases ht
    cases e with
    | system error during =>
      obtain ⟨rfl, rfl⟩ := EStateM.Result.ok.inj h
      exact ⟨rfl, .inr ⟨rfl, hno⟩⟩
    | notText fault =>
      obtain ⟨rfl, rfl⟩ := EStateM.Result.ok.inj h
      exact ⟨rfl, .inr ⟨rfl, hno⟩⟩
    | _ => cases h

/-- A module that is declared needs nothing written; else the list with its declaration is
written to the file. -/
theorem registerIn_eq_ok {b : Bool} (h : registerIn file name w = .ok b w') : ∃ s, Found w file s ∧
    (declares name s.toList = true ∧ b = false ∧ w.Beside w' ∧ w'.tree = w.tree ∨
      declares name s.toList = false ∧ b = true ∧ ∃ l t, w.Reaches file l ∧
        w.tree.writeAt l (Text.encode (String.ofList (append name s.toList))) = .ok t ∧
        w' = { w with tree := t }) := by
  unfold registerIn at h
  obtain ⟨s, w₁, hs, hrest⟩ := Work.bind_eq_ok_iff.1 h
  obtain ⟨rfl, hfound⟩ := textOrEmpty_eq_ok hs
  refine ⟨s, hfound, ?_⟩
  cases hd : declares name s.toList with
  | true =>
    rw [hd, if_pos rfl] at hrest
    obtain ⟨u, w₂, hn, he⟩ := Work.bind_eq_ok_iff.1 hrest
    obtain ⟨rfl, rfl⟩ := EStateM.Result.ok.inj he
    rw [Work.note_run] at hn
    obtain ⟨-, rfl⟩ := EStateM.Result.ok.inj hn
    exact .inl ⟨rfl, rfl, ⟨_, _, rfl⟩, rfl⟩
  | false =>
    rw [hd, if_neg Bool.false_ne_true] at hrest
    obtain ⟨u, w₂, hw, he⟩ := Work.bind_eq_ok_iff.1 hrest
    obtain ⟨rfl, rfl⟩ := EStateM.Result.ok.inj he
    exact .inr ⟨rfl, rfl, Work.writeText_eq_ok hw⟩

theorem textOrEmpty_run {content : ByteArray} (hr : w.Reaches file l)
    (hl : w.tree.get? l = some (.file content)) : ∃ s, textOrEmpty file w = .ok s w := by
  cases hs : Text.decode content with
  | ok s =>
    rw [← Text.encode_of_decode hs] at hl
    exact ⟨s, Work.tryCatch_of_ok (Work.readText_eq_ok_iff.2 ⟨rfl, l, hr, hl⟩) _⟩
  | error fault =>
    have hread : Work.readText file w = .error (.notText fault) w := by
      unfold Work.readText
      rw [Work.bind_of_ok (Work.readBytes_eq_ok_iff.2 ⟨rfl, l, hr, hl⟩)]
      simp only [hs]
      rfl
    exact ⟨"", Work.tryCatch_of_error hread _⟩

theorem registerIn_run {content : ByteArray} (name : String) (hr : w.Reaches file l)
    (hl : w.tree.get? l = some (.file content)) : ∃ b w', registerIn file name w = .ok b w' := by
  obtain ⟨s, hs⟩ := textOrEmpty_run hr hl
  refine Work.bind_run hs ?_
  cases hd : declares name s.toList with
  | true => exact ⟨_, _, rfl⟩
  | false =>
    obtain ⟨t, ht, -⟩ := Work.writeText_of_reaches hr (by simp [hl]) (FileTree.get?_dropLast hl)
      (String.ofList (append name s.toList))
    exact Work.bind_run ht ⟨_, _, rfl⟩

/-- A list in which the next line begins anew. -/
def opened (s : List Char) : List Char :=
  if s = [] ∨ s.getLast? = some '\n' then s else s ++ ['\n']

theorem append_eq (name : String) (s : List Char) :
    append name s = opened s ++ Text.ended [declaration name] := by
  simp [append, opened, Text.ended]

theorem opened_ended (s : List Char) : opened s = [] ∨ (opened s).getLast? = some '\n' := by
  unfold opened
  split
  · assumption
  · exact .inr List.getLast?_concat

theorem lines_opened (s : List Char) :
    Text.lines (opened s) = Text.lines s ∨ Text.lines (opened s) = Text.lines s ++ [[]] := by
  unfold opened
  split
  · exact .inl rfl
  · exact Text.lines_lineFeed_eq s

theorem lines_prefix_append (name : String) (s : List Char) :
    Text.lines s <+: Text.lines (append name s) := by
  rw [append_eq, Text.lines_append (opened_ended s)]
  rcases lines_opened s with h | h
  · rw [h]
    exact List.prefix_append _ _
  · rw [h, List.append_assoc]
    exact List.prefix_append _ _

theorem Found.eq {t : String} (h : Found w file t) (hr : w.Reaches file l)
    (hl : w.tree.get? l = some (.file (Text.encode s))) : t = s := by
  have hread : Work.readText file w = .ok s w := Work.readText_eq_ok_iff.2 ⟨rfl, l, hr, hl⟩
  rcases h with hf | ⟨-, hno⟩
  · rw [hread] at hf
    exact (EStateM.Result.ok.inj hf).1.symm
  · exact absurd hread (hno s)

theorem lines_kept {b : Bool} (hl : w.tree.get? l = some (.file (Text.encode s)))
    (hp : l = FileTree.placeOf w.place file) (h : registerIn file name w = .ok b w') :
    ∃ t, w'.tree.get? l = some (.file (Text.encode t)) ∧
      Text.lines s.toList <+: Text.lines t.toList := by
  obtain ⟨r, hfound, ⟨-, -, -, htree⟩ | ⟨-, -, k, t, hr, ht, rfl⟩⟩ := registerIn_eq_ok h
  · exact ⟨s, by rw [htree, hl], List.prefix_rfl⟩
  · have hk : k = l := hr.eq.trans hp.symm
    subst hk
    have hs : r = s := hfound.eq hr hl
    subst hs
    refine ⟨_, by rw [FileTree.get?_of_writeAt ht, if_pos rfl], ?_⟩
    rw [String.toList_ofList]
    exact lines_prefix_append name r.toList

theorem grows_of_registerIn {b : Bool} (hp : FileTree.Fits w.place)
    (h : registerIn file name w = .ok b w') : w.Beside w' ∧ FileTree.Grows (fun _ => False)
      (fun k => FileTree.Fits k ∧ k = FileTree.placeOf w.place file) w.tree w'.tree := by
  obtain ⟨r, -, ⟨-, -, hb, htree⟩ | ⟨-, -, k, t, hr, ht, rfl⟩⟩ := registerIn_eq_ok h
  · exact ⟨hb, fun k => .inl (by rw [htree])⟩
  · refine ⟨⟨t, _, rfl⟩, (FileTree.grows_of_writeAt ht).mono (fun _ h _ => h) (fun j hj _ => ?_)⟩
    obtain rfl := hj
    exact ⟨hr.fits hp, hr.eq⟩

/-- A list with a first line and the declarations of names below it, each name declared where
it comes first. -/
def listed (head : List Char) (names : List String) : List Char :=
  Text.ended (head :: names.eraseDups.map declaration)

/-- A line that is one whatever the readers of lines take for an end. -/
def OneLine (s : List Char) : Prop :=
  ∀ c ∈ s, Text.isLineBreak c = false

instance (s : List Char) : Decidable (OneLine s) :=
  decidable_of_iff ((s.all fun c => !Text.isLineBreak c) = true) (by simp [OneLine])

theorem OneLine.declaration (h : OneLine name.toList) : OneLine (declaration name) := by
  intro c hc
  rcases List.mem_append.1 hc with hc | hc
  · rcases List.mem_append.1 hc with hc | hc
    · exact (by simp [Text.isLineBreak] : ∀ c ∈ "pub mod ".toList, Text.isLineBreak c = false) c hc
    · exact h c hc
  · obtain rfl := List.mem_singleton.1 hc
    decide

theorem head?_declaration (name : String) : (declaration name).head? = some 'p' := by
  have hp : "pub mod ".toList = 'p' :: "ub mod ".toList := by decide
  unfold declaration
  rw [List.append_assoc, hp, List.cons_append]
  exact List.head?_cons

theorem strip_declaration (name : String) : Text.strip (declaration name) = declaration name := by
  have hlast : (declaration name).getLast? = some ';' := by
    unfold declaration
    exact List.getLast?_concat
  refine Text.strip_eq_self (fun c hc => ?_) (fun c hc => ?_)
  · rw [head?_declaration, Option.some_inj] at hc
    rw [← hc]
    decide
  · rw [hlast, Option.some_inj] at hc
    rw [← hc]
    decide

theorem declaration_inj {m : String} : declaration m = declaration name ↔ m = name := by
  unfold declaration
  rw [List.append_left_inj, List.append_right_inj, String.toList_inj]

/-- A list declares the names that it was made for, and no others. -/
theorem declares_listed (hhead : OneLine head) (hd : ∀ n, Text.strip head ≠ declaration n)
    (hn : ∀ n ∈ names, OneLine n.toList) :
    declares name (listed head names) = true ↔ name ∈ names := by
  have hlines : Text.lines (listed head names) = head :: names.eraseDups.map declaration := by
    refine Text.lines_ended fun l hl => ?_
    rcases List.mem_cons.1 hl with rfl | hl
    · exact hhead
    · obtain ⟨n, hm, rfl⟩ := List.mem_map.1 hl
      exact (hn n (List.mem_eraseDups.1 hm)).declaration
  rw [declares, hlines, List.any_eq_true]
  constructor
  · rintro ⟨line, hl, he⟩
    rw [decide_eq_true_iff] at he
    rcases List.mem_cons.1 hl with rfl | hl
    · exact absurd he (hd name)
    · obtain ⟨n, hm, rfl⟩ := List.mem_map.1 hl
      rw [strip_declaration, declaration_inj] at he
      exact he ▸ List.mem_eraseDups.1 hm
  · intro hm
    refine ⟨declaration name,
      List.mem_cons_of_mem _ (List.mem_map_of_mem (List.mem_eraseDups.2 hm)), ?_⟩
    rw [decide_eq_true_iff]
    exact strip_declaration name

theorem append_ended (name : String) (lines : List (List Char)) :
    append name (Text.ended lines) = Text.ended (lines ++ [declaration name]) := by
  have hlast : Text.ended lines = [] ∨ (Text.ended lines).getLast? = some '\n' := by
    rcases List.eq_nil_or_concat lines with rfl | ⟨ls, l, rfl⟩
    · exact .inl rfl
    · right
      simp [Text.ended]
  rw [append, if_pos hlast]
  simp [Text.ended]

theorem listed_append (head : List Char) (names : List String) (name : String) :
    listed head (names ++ [name]) = if name ∈ names then listed head names
      else append name (listed head names) := by
  have hrest : [name].removeAll names = if name ∈ names then [] else [name] := by
    by_cases hm : name ∈ names <;> simp [List.removeAll, hm]
  unfold listed
  rw [List.eraseDups_append, hrest]
  split
  · simp
  · rw [append_ended]
    simp [List.eraseDups_cons]

theorem registerIn_listed {b : Bool} (hhead : OneLine head)
    (hd : ∀ n, Text.strip head ≠ declaration n)
    (hn : ∀ n ∈ names, OneLine n.toList) (hr : w.Reaches file l)
    (hl : w.tree.get? l = some (.file (Text.encode (String.ofList (listed head names)))))
    (h : registerIn file name w = .ok b w') : w.Beside w' ∧ ∀ k, w'.tree.get? k =
      if l = k then some (.file (Text.encode (String.ofList (listed head (names ++ [name])))))
          else w.tree.get? k := by
  obtain ⟨s, hfound, hcase⟩ := registerIn_eq_ok h
  obtain rfl := hfound.eq hr hl
  rw [String.toList_ofList] at hcase
  rw [listed_append]
  rcases hcase with ⟨hdecl, -, hb, htree⟩ | ⟨hdecl, -, k, t, hr', ht, rfl⟩
  · refine ⟨hb, fun k => ?_⟩
    rw [htree, if_pos ((declares_listed hhead hd hn).1 hdecl)]
    split
    · rename_i he
      rw [← he, hl]
    · rfl
  · have hnew : name ∉ names := fun hm => by simp [(declares_listed hhead hd hn).2 hm] at hdecl
    obtain rfl : k = l := hr'.eq.trans hr.eq.symm
    exact ⟨⟨t, _, rfl⟩, fun j => by rw [FileTree.get?_of_writeAt ht, if_neg hnew]⟩

/-- Declaring a module tells of nothing missing elsewhere. -/
theorem failsOnly_registerIn (file : Path) (name : String) :
    Work.FailsOnly (Work.Misses (· = file)) (registerIn file name) := by
  have hread : Work.FailsOnly (Work.Misses (· = file)) (textOrEmpty file) := by
    have hbytes : Work.FailsOnly (Work.Misses (· = file)) (Work.readBytes file) :=
      Work.failsOnly_look (by rfl) _
    have htext : Work.FailsOnly (fun e => Work.Misses (· = file) e ∨ ∃ fault, e = .notText fault)
        (Work.readText file) := by
      refine (hbytes.mono fun _ => .inl).bind fun _ content _ _ => ?_
      cases Text.decode content with
      | ok s => exact Work.failsOnly_pure _
      | error fault => exact Work.failsOnly_throw (.inr ⟨fault, rfl⟩)
    refine htext.tryCatch fun e he => ?_
    cases e with
    | system e during => exact Work.failsOnly_pure _
    | notText fault => exact Work.failsOnly_pure _
    | nulInPath | tooDeep => exact Work.failsOnly_throw trivial
    | _ =>
      rcases he with he | ⟨fault, he⟩
      · exact he.elim
      · cases he
  refine hread.bind fun _ s _ _ => ?_
  split
  · exact (Work.failsOnly_note _ _ _).bind fun _ _ _ _ => Work.failsOnly_pure _
  · have hwrite (s : String) : Work.FailsOnly (Work.Misses (· = file)) (Work.writeText file s) :=
      Work.failsOnly_writeText (by rfl) s
    exact (hwrite _).bind fun _ _ _ _ => Work.failsOnly_pure _

theorem deaf_registerIn (file : Path) (name : String) : Work.Deaf (registerIn file name) := by
  have hread : Work.Deaf (textOrEmpty file) := by
    refine (Work.deaf_readText file).tryCatch fun e => ?_
    cases e with
    | system e during => exact Work.deaf_pure _
    | notText fault => exact Work.deaf_pure _
    | _ => exact Work.deaf_throw _
  refine hread.bind fun s => ?_
  split
  · exact (Work.deaf_note _ _ _).bind fun _ => Work.deaf_pure _
  · exact (Work.deaf_writeText file _).bind fun _ => Work.deaf_pure _

end ApiScaffold.ModuleList
