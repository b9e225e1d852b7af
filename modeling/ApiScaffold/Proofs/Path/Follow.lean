import ApiScaffold.Path
import ApiScaffold.Proofs.Text.Segments
import Mathlib.Data.List.DropRight

/-! Paths as ways to places: following names, the names in a spelling, and the length of a
spelling. -/
namespace ApiScaffold.Path

theorem follow_append (place a b : List String) :
    follow place (a ++ b) = follow (follow place a) b :=
  List.foldl_append

theorem follow_of_not_mem {names : List String} (h : ".." ∉ names) (place : List String) :
    follow place names = place ++ names := by
  induction names generalizing place with
  | nil => simp [follow]
  | cons name names ih =>
    rw [List.mem_cons, not_or] at h
    change follow (if name = ".." then place.dropLast else place ++ [name]) names = _
    rw [if_neg (Ne.symm h.1), ih h.2, List.append_assoc, List.singleton_append]

/-- Each name of the place reached comes from the place at the start or from the way, and takes
no step back. -/
theorem mem_follow {place names : List String} {name : String} (h : name ∈ follow place names) :
    name ∈ place ∨ name ∈ names ∧ name ≠ ".." := by
  induction names generalizing place with
  | nil => exact .inl h
  | cons n names ih =>
    change name ∈ follow (if n = ".." then place.dropLast else place ++ [n]) names at h
    rcases ih h with hp | ⟨hn, hd⟩
    · split at hp
      · exact .inl (List.mem_of_mem_dropLast hp)
      · rename_i hne
        rcases List.mem_append.1 hp with hp | hp
        · exact .inl hp
        · obtain rfl := List.mem_singleton.1 hp
          exact .inr ⟨List.mem_cons_self, hne⟩
    · exact .inr ⟨List.mem_cons_of_mem n hn, hd⟩

theorem not_mem_follow {place : List String} (h : ".." ∉ place) (names : List String) :
    ".." ∉ follow place names := by
  intro hm
  rcases mem_follow hm with hp | ⟨-, hd⟩
  · exact h hp
  · exact hd rfl

theorem ofChars_eq_here_iff {s : List Char} : Base.ofChars s = .here ↔ s.head? ≠ some '/' := by
  cases s with
  | nil => exact iff_of_true rfl nofun
  | cons c r =>
    by_cases hc : c = '/'
    · subst hc
      refine iff_of_false ?_ fun h => h rfl
      unfold Base.ofChars
      split <;> simp_all
    · refine iff_of_true ?_ (by simpa using hc)
      unfold Base.ofChars
      split <;> simp_all

theorem mem_namesOf {name s : String} :
    name ∈ namesOf s ↔ name.toList ∈ Text.segments '/' s.toList ∧ name ≠ "" ∧ name ≠ "." := by
  simp only [namesOf, List.mem_filter, List.mem_map, decide_eq_true_eq]
  refine and_congr_left fun _ => ⟨?_, fun h => ⟨_, h, String.ofList_toList⟩⟩
  rintro ⟨l, hl, rfl⟩
  rwa [String.toList_ofList]

theorem slash_not_mem_of_mem_namesOf {name s : String} (h : name ∈ namesOf s) : '/' ∉ name.toList :=
  Text.not_mem_of_mem_segments (mem_namesOf.1 h).1

/-- Other than slashes, each character of a spelling is one of its names. A name left out
has dots only. -/
theorem exists_mem_namesOf {s : String} {c : Char} (hc : c ∈ s.toList) (hslash : c ≠ '/')
    (hdot : c ≠ '.') : ∃ name ∈ namesOf s, c ∈ name.toList := by
  obtain ⟨piece, hpiece, hmem⟩ := Text.exists_mem_segments hc hslash
  have hname : (String.ofList piece).toList = piece := String.toList_ofList
  refine ⟨.ofList piece, mem_namesOf.2 ⟨by rwa [hname], ?_, ?_⟩, by rwa [hname]⟩
  · rintro hempty
    rw [← hname, hempty] at hmem
    cases hmem
  · rintro hone
    rw [← hname, hone] at hmem
    exact hdot (List.mem_singleton.1 hmem)

theorem nul_not_mem_of_ofString {s : String} (h : (ofString s).hasNul = false) :
    '\x00' ∉ s.toList := by
  intro hmem
  obtain ⟨name, hname, hnul⟩ := exists_mem_namesOf hmem (by decide) (by decide)
  rw [hasNul, List.any_eq_false] at h
  exact h name hname (decide_eq_true hnul)

theorem nul_not_mem_text {p : Path} (h : p.hasNul = false) : '\x00' ∉ p.text.toList := by
  rw [hasNul, List.any_eq_false] at h
  have hnames (names : List String) (hn : ∀ name ∈ names, '\x00' ∉ name.toList) :
      '\x00' ∉ ("/".intercalate names).toList := by
    induction names with
    | nil => simp
    | cons name names ih =>
      rw [List.forall_mem_cons] at hn
      cases names with
      | nil => simpa using hn.1
      | cons n names =>
        rw [String.intercalate_cons_cons, String.toList_append, String.toList_append]
        simp only [List.mem_append, not_or]
        exact ⟨⟨hn.1, by decide⟩, ih hn.2⟩
  unfold text
  split
  · decide
  · rw [String.toList_append, List.mem_append, not_or]
    refine ⟨?_, hnames _ fun name hname hnul => h name hname (decide_eq_true hnul)⟩
    cases p.base <;> decide

theorem namesOf_of_not_mem {s : String} (hs : '/' ∉ s.toList) (hne : s ≠ "") (hdot : s ≠ ".") :
    namesOf s = [s] := by
  unfold namesOf
  rw [Text.segments_of_not_mem hs]
  simp [hne, hdot]

theorem ofString_of_not_mem {s : String} (hs : '/' ∉ s.toList) (hne : s ≠ "") (hdot : s ≠ ".") :
    ofString s = ⟨.here, [s]⟩ := by
  have hb : Base.ofChars s.toList = .here :=
    ofChars_eq_here_iff.2 fun h => hs (List.mem_of_head? h)
  rw [ofString, hb, namesOf_of_not_mem hs hne hdot]

theorem child_of_head {p : Path} {s : String} (hs : s.toList.head? ≠ some '/') :
    p / s = ⟨p.base, p.names ++ namesOf s⟩ := by
  change p.join (ofString s) = _
  rw [ofString, ofChars_eq_here_iff.2 hs]
  rfl

theorem child_of_not_mem {p : Path} {s : String} (hs : '/' ∉ s.toList) (hne : s ≠ "")
    (hdot : s ≠ ".") : p / s = ⟨p.base, p.names ++ [s]⟩ := by
  rw [child_of_head fun h => hs (List.mem_of_head? h), namesOf_of_not_mem hs hne hdot]

/-- The bytes of names, each with the slash in front of it. -/
def spelledSize : List String → Nat
  | [] => 0
  | name :: names => name.utf8ByteSize + 1 + spelledSize names

@[simp] theorem spelledSize_nil : spelledSize [] = 0 := rfl

@[simp] theorem spelledSize_cons (name : String) (names : List String) :
    spelledSize (name :: names) = name.utf8ByteSize + 1 + spelledSize names := rfl

@[simp] theorem spelledSize_append (a b : List String) :
    spelledSize (a ++ b) = spelledSize a + spelledSize b := by
  induction a with
  | nil => simp
  | cons name a ih =>
    rw [List.cons_append, spelledSize_cons, spelledSize_cons, ih]
    omega

@[simp] theorem spelledSize_replicate (n : ℕ) (name : String) :
    spelledSize (List.replicate n name) = n * (name.utf8ByteSize + 1) := by
  induction n with
  | zero => simp
  | succ n ih =>
    rw [List.replicate_succ, spelledSize_cons, ih, Nat.succ_mul]
    omega

theorem utf8ByteSize_intercalate (name : String) (names : List String) :
    ("/".intercalate (name :: names)).utf8ByteSize + 1 = spelledSize (name :: names) := by
  induction names generalizing name with
  | nil => simp
  | cons n names ih =>
    have := ih n
    simp only [String.intercalate_cons_cons, String.utf8ByteSize_append, spelledSize_cons] at this ⊢
    have hs : "/".utf8ByteSize = 1 := by decide
    omega

/-- The length of a spelling is that of its names, of the slashes between them and of its start. -/
theorem utf8ByteSize_text {p : Path} (h : p.names ≠ []) :
    p.text.utf8ByteSize + 1 = p.base.text.utf8ByteSize + spelledSize p.names := by
  obtain ⟨base, names⟩ := p
  cases names with
  | nil => exact absurd rfl h
  | cons name names =>
    have := utf8ByteSize_intercalate name names
    simp only [text, reduceCtorEq, and_false, if_false, String.utf8ByteSize_append]
    omega

theorem toList_text_root {names : List String} (h : names ≠ []) :
    (⟨.root, names⟩ : Path).text.toList = names.flatMap fun name => '/' :: name.toList := by
  have hlist (name : String) (names : List String) :
      '/' :: ("/".intercalate (name :: names)).toList = (name :: names).flatMap fun name =>
        '/' :: name.toList := by
    induction names generalizing name with
    | nil => simp
    | cons n names ih =>
      rw [List.flatMap_cons, ← ih n, String.intercalate_cons_cons]
      simp
  cases names with
  | nil => exact absurd rfl h
  | cons name names =>
    rw [← hlist]
    simp [text, Base.text]

theorem utf8ByteSize_text_root {names : List String} (h : names ≠ []) :
    (⟨.root, names⟩ : Path).text.utf8ByteSize = spelledSize names := by
  have hsize := utf8ByteSize_text (p := ⟨.root, names⟩) h
  have hbase : Base.root.text.utf8ByteSize = 1 := by decide
  simp only [hbase] at hsize
  omega

/-- Names added to a path make its spelling longer by their own spelling at most. -/
theorem utf8ByteSize_text_append (base : Base) (names r : List String) :
    (⟨base, names ++ r⟩ : Path).text.utf8ByteSize ≤
      (⟨base, names⟩ : Path).text.utf8ByteSize + spelledSize r := by
  by_cases hr : r = []
  · simp [hr]
  have hlong := utf8ByteSize_text (p := ⟨base, names ++ r⟩) (by simp [hr])
  simp only [spelledSize_append] at hlong
  by_cases hn : names = []
  · subst hn
    have hbase : base.text.utf8ByteSize ≤ (⟨base, []⟩ : Path).text.utf8ByteSize := by
      cases base <;> decide
    simp only [spelledSize_nil] at hlong
    omega
  · have := utf8ByteSize_text (p := ⟨base, names⟩) hn
    simp only at this
    omega

end ApiScaffold.Path
