import ApiScaffold.Placeholder
import ApiScaffold.Proofs.FileTree.Listing
import ApiScaffold.Proofs.Text.Substitution
import ApiScaffold.Proofs.Workspace.Failure

/-! Replacing placeholders. Where it ends well each file below the directory has the value in the
place of the token, and nothing else has changed. -/
namespace ApiScaffold

namespace Placeholder
open FileTree
variable {w w' : Workspace} {p root : Path} {l d : Location} {token value : String}
  {content : ByteArray} {levels : Nat}

/-- What becomes of the bytes of a file; what is no text stays. -/
def stamped (token value : String) (content : ByteArray) : ByteArray :=
  match Text.decode content with
  | .ok s => Text.encode (String.ofList (Text.replace token.toList value.toList s.toList))
  | .error _ => content

def stampedNode (token value : String) : Node → Node
  | .directory => .directory
  | .file content => .file (stamped token value content)

theorem stamped_encode (token value s : String) : stamped token value (Text.encode s) =
    Text.encode (String.ofList (Text.replace token.toList value.toList s.toList)) := by
  rw [stamped, Text.decode_encode]

theorem stamped_of_not_infix {s : String} (value : String) (h : ¬ token.toList <:+: s.toList) :
    stamped token value (Text.encode s) = Text.encode s := by
  rw [stamped_encode, Text.replace_eq_self _ h, String.ofList_toList]

theorem textOrEmpty_eq_ok {s : String} (h : textOrEmpty p w = .ok s w') : ∃ l content,
    w.Reaches p l ∧ w.tree.get? l = some (.file content) ∧ w.Beside w' ∧ w'.tree = w.tree ∧
      (Text.decode content = .ok s ∨ s = "" ∧ ∃ fault, Text.decode content = .error fault) := by
  unfold textOrEmpty at h
  obtain ⟨content, w₁, hb, hd⟩ := Work.bind_eq_ok_iff.1 h
  obtain ⟨rfl, l, hr, hl⟩ := Work.readBytes_eq_ok_iff.1 hb
  cases hs : Text.decode content with
  | ok s' =>
    simp only [hs] at hd
    obtain ⟨rfl, rfl⟩ := EStateM.Result.ok.inj hd
    exact ⟨l, content, hr, hl, .refl _, rfl, .inl hs⟩
  | error fault =>
    simp only [hs] at hd
    obtain ⟨u, w₂, hn, he⟩ := Work.bind_eq_ok_iff.1 hd
    obtain ⟨rfl, rfl⟩ := EStateM.Result.ok.inj he
    rw [Work.note_run] at hn
    obtain ⟨-, rfl⟩ := EStateM.Result.ok.inj hn
    exact ⟨l, content, hr, hl, ⟨_, _, rfl⟩, rfl, .inr ⟨rfl, fault, hs⟩⟩

/-- The token occurs in the text that bytes spell. -/
def OccursIn (token : String) (content : ByteArray) : Prop :=
  ∃ s, content = Text.encode s ∧ token.toList <:+: s.toList

theorem occursIn_encode {s : String} :
    OccursIn token (Text.encode s) ↔ token.toList <:+: s.toList := by
  constructor
  · rintro ⟨t, he, ht⟩
    have hdecode := Text.decode_encode s
    rw [he, Text.decode_encode] at hdecode
    obtain rfl := Except.ok.inj hdecode
    exact ht
  · exact fun h => ⟨s, rfl, h⟩

theorem not_occursIn_of_fault {fault : Text.Utf8Fault} (h : Text.decode content = .error fault) :
    ¬ OccursIn token content := by
  rintro ⟨s, rfl, -⟩
  rw [Text.decode_encode] at h
  cases h

theorem stamped_of_not_occursIn (value : String) (h : ¬ OccursIn token content) :
    stamped token value content = content := by
  cases hs : Text.decode content with
  | ok s =>
    rw [← Text.encode_of_decode hs] at h ⊢
    exact stamped_of_not_infix value fun hi => h (occursIn_encode.2 hi)
  | error fault => rw [stamped, hs]

/-- The token is replaced in one file if it occurs there. -/
theorem replaceIn_eq_ok {b : Bool} (htoken : token ≠ "")
    (h : replaceIn token value p w = .ok b w') :
    ∃ l content, w.Reaches p l ∧ w.tree.get? l = some (.file content) ∧ w.Beside w' ∧
      (∀ k, w'.tree.get? k = if l = k then some (.file (stamped token value content))
        else w.tree.get? k) ∧
      (b = true ↔ OccursIn token content) := by
  unfold replaceIn at h
  obtain ⟨s, w₁, hs, h⟩ := Work.bind_eq_ok_iff.1 h
  obtain ⟨l, content, hr, hl, hb, htree, hdecode⟩ := textOrEmpty_eq_ok hs
  by_cases ho : token.toList <:+: s.toList
  · rw [if_neg (by simp [Text.occurs_iff.2 ho])] at h
    obtain ⟨u, w₂, hw, h⟩ := Work.bind_eq_ok_iff.1 h
    obtain ⟨rfl, rfl⟩ := EStateM.Result.ok.inj h
    obtain ⟨k, t, hr', ht, rfl⟩ := Work.writeText_eq_ok hw
    have hk : k = l := by rw [hr'.eq, hb.place, ← hr.eq]
    subst hk
    have hs' : Text.decode content = .ok s := by
      rcases hdecode with hd | ⟨rfl, -⟩
      · exact hd
      · exact absurd (by simpa using ho) htoken
    refine ⟨k, content, hr, hl, hb.trans ⟨t, _, rfl⟩, fun j => ?_, ?_⟩
    · rw [get?_of_writeAt ht, htree, stamped, hs']
    · rw [← Text.encode_of_decode hs', occursIn_encode]
      exact iff_of_true rfl ho
  · rw [if_pos (by simp [Text.occurs_eq_false_iff.2 ho])] at h
    obtain ⟨rfl, rfl⟩ := EStateM.Result.ok.inj h
    have hno : ¬ OccursIn token content := by
      rcases hdecode with hd | ⟨-, fault, hd⟩
      · rwa [← Text.encode_of_decode hd, occursIn_encode]
      · exact not_occursIn_of_fault hd
    refine ⟨l, content, hr, hl, hb, fun k => ?_, iff_of_false Bool.false_ne_true hno⟩
    rw [htree, stamped_of_not_occursIn value hno]
    split
    · rename_i hk
      rw [← hk, hl]
    · rfl

theorem filesBelow_eq_ok {paths : List Path} (hd : w.Opens root d)
    (h : Work.filesBelow root levels w = .ok paths w') :
    w' = w ∧ ∃ ways : List (List String), ways.Pairwise (· < ·) ∧
      paths = ways.map (fun r => ⟨root.base, root.names ++ r⟩) ∧
      ∀ r, r ∈ ways ↔ r ≠ [] ∧ ∃ content, w.tree.get? (d ++ r) = some (.file content) := by
  rw [Work.filesBelow_of_opens hd fun _ => Work.filesBelow_enters hd h] at h
  obtain ⟨rfl, rfl⟩ := EStateM.Result.ok.inj h
  refine ⟨rfl, ((w.tree.below d).filter fun e => e.2 ≠ .directory).map (·.1), ?_, ?_, fun r => ?_⟩
  · exact (w.tree.below_pairwise d).sublist (List.filter_sublist.map _)
  · rw [List.map_map, ← List.filterMap_eq_map, ← List.filterMap_eq_filter, List.filterMap_filterMap]
    congr 1
    funext e
    rcases e with ⟨r, _ | c⟩ <;> simp [Option.guard]
  · simp only [List.mem_map, List.mem_filter, Prod.exists, exists_and_right, exists_eq_right]
    constructor
    · rintro ⟨n, hm, hn⟩
      obtain ⟨hr, hg⟩ := mem_below.1 hm
      cases n with
      | directory => simp at hn
      | file content => exact ⟨hr, content, hg⟩
    · rintro ⟨hr, content, hg⟩
      exact ⟨.file content, mem_below.2 ⟨hr, hg⟩, by simp⟩

def Below (d k : Location) : Prop :=
  ∃ r, r ≠ [] ∧ k = d ++ r

def HasToken (token : String) (t : FileTree) (l : Location) : Prop :=
  ∃ content, t.get? l = some (.file content) ∧ OccursIn token content

/-- The token is replaced in one file below a directory. The file is found if it has the token. -/
theorem replaceIn_below {r : List String} {b : Bool} (htoken : token ≠ "") (hd : w.Opens root d)
    (hup : ".." ∉ r) (h : replaceIn token value ⟨root.base, root.names ++ r⟩ w = .ok b w') :
    w.Beside w' ∧ Grows (fun _ => False) (· = d ++ r) w.tree w'.tree ∧
      w'.tree.get? (d ++ r) = (w.tree.get? (d ++ r)).map (stampedNode token value) ∧
      (b = true ↔ HasToken token w.tree (d ++ r)) := by
  obtain ⟨l, content, hreach, hl, hb, hget, hoccurs⟩ := replaceIn_eq_ok htoken h
  obtain rfl : l = d ++ r := by
    rw [hreach.eq, placeOf_append hup, ← hd.1.eq]
  refine ⟨hb, grows_of_get? (by simp [hl]) hget, ?_, ?_⟩
  · rw [hget, if_pos rfl, hl]
    rfl
  · rw [hoccurs]
    constructor
    · exact fun ho => ⟨content, hl, ho⟩
    · rintro ⟨content', hl', ho⟩
      rw [hl, Option.some_inj, Node.file.injEq] at hl'
      exact hl' ▸ ho

/-- The token is replaced in each of some files below a directory. Those that have it are found. -/
theorem filterAuxM_replaceIn_eq_ok {ways : List (List String)} {found rewritten : List Path}
    (htoken : token ≠ "") (hd : w.Opens root d) (hup : ∀ r ∈ ways, ".." ∉ r) (hnodup : ways.Nodup)
    (h : (ways.map fun r => (⟨root.base, root.names ++ r⟩ : Path)).filterAuxM
      (replaceIn token value) found w = .ok rewritten w') : w.Beside w' ∧
      (∀ r ∈ ways, w'.tree.get? (d ++ r) = (w.tree.get? (d ++ r)).map (stampedNode token value)) ∧
      (∀ k, (∀ r ∈ ways, k ≠ d ++ r) → w'.tree.get? k = w.tree.get? k) ∧
      ∃ hits : List (List String), hits.Sublist ways ∧
        rewritten.reverse = found.reverse ++ hits.map (fun r => ⟨root.base, root.names ++ r⟩) ∧
        ∀ r, r ∈ hits ↔ r ∈ ways ∧ HasToken token w.tree (d ++ r) := by
  induction ways generalizing w found with
  | nil =>
    obtain ⟨rfl, rfl⟩ := EStateM.Result.ok.inj h
    exact ⟨.refl w, by simp, fun _ _ => rfl, [], .slnil, by simp, by simp⟩
  | cons r ways ih =>
    rw [List.map_cons, List.filterAuxM] at h
    obtain ⟨b, w₁, hr, hrest⟩ := Work.bind_eq_ok_iff.1 h
    rw [List.forall_mem_cons] at hup
    rw [List.nodup_cons] at hnodup
    obtain ⟨hb, hg, hhere, hhit⟩ := replaceIn_below htoken hd hup.1 hr
    have hother (k : Location) (hk : k ≠ d ++ r) : w₁.tree.get? k = w.tree.get? k :=
      hg.eq_of_not id hk
    have hapart : ∀ s ∈ ways, d ++ s ≠ d ++ r :=
      fun s hs he => hnodup.1 (List.append_cancel_left he ▸ hs)
    obtain ⟨hb', hin, hout, hits, hsub, hlist, hmem⟩ := ih (hd.grows hb hg) hup.2 hnodup.2 hrest
    refine ⟨hb.trans hb', List.forall_mem_cons.2 ⟨?_, fun s hs => ?_⟩, fun k hk => ?_, ?_⟩
    · rw [hout _ fun s hs => (hapart s hs).symm, hhere]
    · rw [hin s hs, hother _ (hapart s hs)]
    · rw [List.forall_mem_cons] at hk
      rw [hout k hk.2, hother k hk.1]
    · have hmem' (s : List String) : s ∈ hits ↔ s ∈ ways ∧ HasToken token w.tree (d ++ s) := by
        rw [hmem]
        exact and_congr_right fun hs => by rw [HasToken, HasToken, hother _ (hapart s hs)]
      cases b with
      | true =>
        refine ⟨r :: hits, hsub.cons_cons r, by rw [hlist]; simp, fun s => ?_⟩
        rw [List.mem_cons, List.mem_cons, hmem', or_and_right]
        exact or_congr_left ⟨fun he => ⟨he, he ▸ hhit.1 rfl⟩, And.left⟩
      | false =>
        refine ⟨hits, hsub.cons r, hlist, fun s => ?_⟩
        rw [List.mem_cons, hmem', or_and_right]
        refine (or_iff_right ?_).symm
        rintro ⟨rfl, he⟩
        exact absurd (hhit.2 he) Bool.false_ne_true

/-- The files below a directory are listed, and then the token is replaced in one after the
other. -/
theorem replaceBelow_steps {rewritten : List Path}
    (h : replaceBelow root token value levels w = .ok rewritten w') :
    token ≠ "" ∧ ∃ paths w₁ w₂, Work.filesBelow root levels w = .ok paths w₁ ∧
      paths.filterAuxM (replaceIn token value) [] w₁ = .ok rewritten.reverse w₂ ∧ w₂.Beside w' ∧
      w'.tree = w₂.tree := by
  unfold replaceBelow at h
  by_cases htoken : token = ""
  · rw [if_pos htoken] at h
    cases h
  rw [if_neg htoken] at h
  obtain ⟨paths, w₁, hfiles, hrest⟩ := Work.bind_eq_ok_iff.1 h
  obtain ⟨ps, w₂, hfilter, hnote⟩ := Work.bind_eq_ok_iff.1 hrest
  obtain ⟨u, w₃, hn, he⟩ := Work.bind_eq_ok_iff.1 hnote
  obtain ⟨rfl, rfl⟩ := EStateM.Result.ok.inj he
  rw [Work.note_run] at hn
  obtain ⟨-, rfl⟩ := EStateM.Result.ok.inj hn
  obtain ⟨qs, w₃, haux, hrev⟩ := Work.bind_eq_ok_iff.1 hfilter
  obtain ⟨rfl, rfl⟩ := EStateM.Result.ok.inj hrev
  exact ⟨htoken, paths, w₁, w₃, hfiles, by rwa [List.reverse_reverse], ⟨_, _, rfl⟩, rfl⟩

theorem replaceBelow_error_steps {e : Failure} (htoken : token ≠ "")
    (h : replaceBelow root token value levels w = .error e w') :
    Work.filesBelow root levels w = .error e w' ∨
      ∃ paths w₁, Work.filesBelow root levels w = .ok paths w₁ ∧
        paths.filterAuxM (replaceIn token value) [] w₁ = .error e w' := by
  unfold replaceBelow at h
  rw [if_neg htoken] at h
  rcases Work.bind_eq_error_iff.1 h with hfiles | ⟨paths, w₁, hfiles, hrest⟩
  · exact .inl hfiles
  · rcases Work.bind_eq_error_iff.1 hrest with hfilter | ⟨found, w₂, -, hnote⟩
    · rcases Work.bind_eq_error_iff.1 hfilter with haux | ⟨qs, w₂, -, hrev⟩
      · exact .inr ⟨paths, w₁, hfiles, haux⟩
      · cases hrev
    · rcases Work.bind_eq_error_iff.1 hnote with hn | ⟨u, w₃, -, he⟩
      · cases hn
      · cases he

theorem replaceBelow_eq_ok {rewritten : List Path} (hs : w.Sound) (hd : w.Opens root d)
    (h : replaceBelow root token value levels w = .ok rewritten w') :
    token ≠ "" ∧ w.Beside w' ∧
      (∀ k, Below d k → w'.tree.get? k = (w.tree.get? k).map (stampedNode token value)) ∧
      ∀ k, ¬ Below d k → w'.tree.get? k = w.tree.get? k := by
  obtain ⟨htoken, paths, w₁, w₂, hfiles, haux, hb', htree⟩ := replaceBelow_steps h
  obtain ⟨rfl, ways, hordered, rfl, hways⟩ := filesBelow_eq_ok hd hfiles
  have hup : ∀ r ∈ ways, ".." ∉ r := by
    intro r hr
    obtain ⟨-, content, hg⟩ := (hways r).1 hr
    exact (hs.1 _ _ hg).of_append_right.not_mem
  obtain ⟨hb, hin, hout, -⟩ :=
    filterAuxM_replaceIn_eq_ok htoken hd hup (nodup_of_pairwise_lt hordered) haux
  rw [htree]
  refine ⟨htoken, hb.trans hb', ?_,
    fun k hk => hout k fun r hr he => hk ⟨r, ((hways r).1 hr).1, he⟩⟩
  rintro k ⟨r, hr, rfl⟩
  by_cases hm : r ∈ ways
  · exact hin r hm
  · -- a place below that holds no file keeps its directory or stays empty
    have hno : ∀ s ∈ ways, d ++ r ≠ d ++ s := by
      intro s hs he
      rw [← List.append_cancel_left he] at hs
      exact hm hs
    rw [hout _ hno]
    cases hg : w₁.tree.get? (d ++ r) with
    | none => rfl
    | some n =>
      cases n with
      | directory => rfl
      | file content => exact absurd ((hways r).2 ⟨hr, content, hg⟩) hm

theorem grows_of_replaceBelow {rewritten : List Path} (hs : w.Sound) (hd : w.Opens root d)
    (h : replaceBelow root token value levels w = .ok rewritten w') :
    Grows (fun _ => False) (fun k => Fits k ∧ Below d k) w.tree w'.tree := by
  obtain ⟨-, -, hin, hout⟩ := replaceBelow_eq_ok hs hd h
  intro k
  by_cases hk : Below d k
  · cases hg : w.tree.get? k with
    | none => exact .inl (by rw [hin k hk, hg]; rfl)
    | some n =>
      cases n with
      | directory => exact .inl (by rw [hin k hk, hg]; rfl)
      | file content => exact .inr (.inr ⟨⟨hs.1 k _ hg, hk⟩, by simp, _, by rw [hin k hk, hg]; rfl⟩)
  · exact .inl (hout k hk)

theorem sound_of_replaceBelow {rewritten : List Path} (hs : w.Sound) (hd : w.Opens root d)
    (h : replaceBelow root token value levels w = .ok rewritten w') : w'.Sound := by
  obtain ⟨-, hb, -⟩ := replaceBelow_eq_ok hs hd h
  exact hs.grows hb ((grows_of_replaceBelow hs hd h).mono (fun _ h _ => h.elim) (fun _ h _ => h.1))

theorem textOrEmpty_run (hr : w.Reaches p l) (hl : w.tree.get? l = some (.file content)) :
    ∃ s w', textOrEmpty p w = .ok s w' := by
  have hb : Work.readBytes p w = .ok content w := Work.readBytes_eq_ok_iff.2 ⟨rfl, l, hr, hl⟩
  refine Work.bind_run hb ?_
  cases hs : Text.decode content with
  | ok s => exact ⟨s, w, rfl⟩
  | error fault => exact ⟨"", _, rfl⟩

theorem replaceIn_run (token value : String) (hr : w.Reaches p l)
    (hl : w.tree.get? l = some (.file content)) : ∃ b w', replaceIn token value p w = .ok b w' := by
  obtain ⟨s, w₁, hs⟩ := textOrEmpty_run hr hl
  obtain ⟨k, c, hr', -, hb, htree, -⟩ := textOrEmpty_eq_ok hs
  refine Work.bind_run hs ?_
  by_cases ho : Text.occurs token.toList s.toList
  · simp only [ho]
    have hreach : w₁.Reaches p l := ⟨hr.1, by rw [hb.place, htree]; exact hr.2⟩
    obtain ⟨t, ht, -⟩ :=
      Work.writeText_of_reaches hreach (by simp [htree, hl]) (by rw [htree]; exact get?_dropLast hl)
      (String.ofList (Text.replace token.toList value.toList s.toList))
    exact Work.bind_run ht ⟨_, _, rfl⟩
  · simp only [ho]
    exact ⟨_, _, rfl⟩

theorem replaceIn_of_long (token value : String)
    (hnul : p.hasNul = false) (hlong : pathLimit ≤ p.text.utf8ByteSize) (w : Workspace) :
    replaceIn token value p w = .error (.system (Refusal.nameTooLong.error p) []) w := by
  have hlocate : w.tree.locate w.place p = .error .nameTooLong := by
    rw [locate, if_pos hlong]
  have hread : Work.readBytes p w = .error (.system (Refusal.nameTooLong.error p) []) w := by
    rw [Work.readBytes, Work.look_run, if_neg (by simp [hnul]), FileTree.read, hlocate]
    rfl
  have htext : textOrEmpty p w = .error (.system (Refusal.nameTooLong.error p) []) w :=
    Work.bind_of_error hread _
  exact Work.bind_of_error htext _

/-- In a file below a directory the token cannot be replaced only if the path is too long. -/
theorem replaceIn_error {r : List String} {e : Failure} (hd : w.Opens root d) (hfit : Fits r)
    (hl : w.tree.get? (d ++ r) = some (.file content))
    (h : replaceIn token value ⟨root.base, root.names ++ r⟩ w = .error e w') :
    w' = w ∧ e = .system (Refusal.nameTooLong.error ⟨root.base, root.names ++ r⟩) [] := by
  by_cases hshort : (⟨root.base, root.names ++ r⟩ : Path).text.utf8ByteSize < pathLimit
  · obtain ⟨b, w₁, hw₁⟩ := replaceIn_run token value (hd.reaches_file hfit hshort hl) hl
    rw [hw₁] at h
    cases h
  · rw [replaceIn_of_long token value (hd.hasNul hfit) (Nat.not_lt.1 hshort)] at h
    obtain ⟨rfl, rfl⟩ := EStateM.Result.error.inj h
    exact ⟨rfl, rfl⟩

theorem filterAuxM_replaceIn_run {ways : List (List String)} (htoken : token ≠ "") (value : String)
    (hd : w.Opens root d)
    (hways : ∀ r ∈ ways, Fits r ∧ (⟨root.base, root.names ++ r⟩ : Path).text.utf8ByteSize <
      pathLimit ∧ ∃ content, w.tree.get? (d ++ r) = some (.file content)) (found : List Path) :
    ∃ rewritten w', (ways.map fun r => (⟨root.base, root.names ++ r⟩ : Path)).filterAuxM
      (replaceIn token value) found w = .ok rewritten w' := by
  induction ways generalizing w found with
  | nil => exact ⟨found, w, rfl⟩
  | cons r ways ih =>
    obtain ⟨hfit, hshort, content, hl⟩ := hways r List.mem_cons_self
    obtain ⟨b, w₁, hw₁⟩ := replaceIn_run token value (hd.reaches_file hfit hshort hl) hl
    obtain ⟨hb, hg, -⟩ := replaceIn_below htoken hd hfit.not_mem hw₁
    rw [List.map_cons, List.filterAuxM]
    refine Work.bind_run hw₁ (ih (hd.grows hb hg) (fun s hs => ?_) _)
    obtain ⟨hfit', hshort', content', hl'⟩ := hways s (List.mem_cons_of_mem r hs)
    exact ⟨hfit', hshort', hg.file hl'⟩

/-- The token can be replaced below a directory if each directory there can be gone into and the
paths of all that is there are short enough. -/
theorem replaceBelow_of_enters (htoken : token ≠ "")
    (value : String) (hs : w.Sound) (hd : w.Opens root d)
    (hin : ∀ r, w.tree.get? (d ++ r) = some .directory → Work.Enters root levels r)
    (hshort : ∀ r n, w.tree.get? (d ++ r) = some n →
      (⟨root.base, root.names ++ r⟩ : Path).text.utf8ByteSize < pathLimit) :
    ∃ rewritten w', replaceBelow root token value levels w = .ok rewritten w' := by
  have hpaths := Work.filesBelow_of_opens hd hin
  obtain ⟨-, ways, -, heq, hways⟩ := filesBelow_eq_ok hd hpaths
  rw [heq] at hpaths
  have hall : ∀ r ∈ ways, Fits r ∧ (⟨root.base, root.names ++ r⟩ : Path).text.utf8ByteSize <
      pathLimit ∧ ∃ content, w.tree.get? (d ++ r) = some (.file content) := by
    intro r hr
    obtain ⟨-, content, hg⟩ := (hways r).1 hr
    exact ⟨(hs.1 _ _ hg).of_append_right, hshort r _ hg, content, hg⟩
  obtain ⟨rewritten, w₁, hw₁⟩ := filterAuxM_replaceIn_run htoken value hd hall []
  unfold replaceBelow
  rw [if_neg htoken]
  have hfilter : (ways.map fun r => (⟨root.base, root.names ++ r⟩ : Path)).filterM
    (replaceIn token value) w = .ok rewritten.reverse w₁ := Work.bind_of_ok hw₁ _
  exact Work.bind_run hpaths (Work.bind_run hfilter ⟨_, _, rfl⟩)

theorem replaceBelow_run (htoken : token ≠ "") (value : String) (hs : w.Sound) (hd : w.Opens root d)
    (hnear : ∀ r n, w.tree.get? (d ++ r) = some n → Work.Near root r) :
    ∃ rewritten w', replaceBelow root token value Work.usualLevels w = .ok rewritten w' :=
  replaceBelow_of_enters htoken value hs hd (fun r hr => (hnear r _ hr).enters) fun r n hr =>
    (hnear r n hr).enters.2

theorem failsOnly_replaceIn {paths : Path → Prop} {p : Path} (h : paths p) :
    Work.FailsOnly (Work.Misses paths) (replaceIn token value p) := by
  have hread : Work.FailsOnly (Work.Misses paths) (textOrEmpty p) := by
    refine (Work.failsOnly_look h _).bind fun _ content _ _ => ?_
    cases Text.decode content with
    | ok s => exact Work.failsOnly_pure _
    | error fault => exact (Work.failsOnly_note _ _ _).bind fun _ _ _ _ => Work.failsOnly_pure _
  refine hread.bind fun _ s _ _ => ?_
  simp only
  split
  · exact Work.failsOnly_pure _
  · exact (Work.failsOnly_writeText h _).bind fun _ _ _ _ => Work.failsOnly_pure _

/-- Replacing a token below a directory tells of nothing missing elsewhere. -/
theorem failsOnly_replaceBelow (htoken : token ≠ "") (root : Path) :
    Work.FailsOnly (Work.Misses (Work.Onward root)) (replaceBelow root token value levels) := by
  unfold replaceBelow
  rw [if_neg htoken]
  refine (Work.failsOnly_filesBelow root levels).bind fun _ files _ hfiles => ?_
  refine (Work.FailsOnly.filterM fun p hp => ?_).bind fun _ _ _ _ =>
    (Work.failsOnly_note _ _ _).bind fun _ _ _ _ => Work.failsOnly_pure _
  exact failsOnly_replaceIn (Work.onward_of_filesBelow hfiles p hp)

end Placeholder
end ApiScaffold
