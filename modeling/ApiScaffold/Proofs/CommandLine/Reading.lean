import ApiScaffold.CommandLine.Command
import ApiScaffold.Proofs.Text.Occurrence

/-! Command lines that spell out a task: its two words, then its options in any order, each in one
word or in two. -/
namespace ApiScaffold.CommandLine

/-- An option with its value, which stands behind an equals sign or is a word of its own. -/
structure Given where
  word : String
  value : String
  apart : Bool
  deriving DecidableEq, Repr

namespace Given

def words (g : Given) : List String :=
  if g.apart then ["--" ++ g.word, g.value] else ["--" ++ g.word ++ "=" ++ g.value]

/-- A value that is read as it is. The separator of words stands for no value, and a word of its own
may be taken for an option if a minus sign is in front. -/
def IsRead (g : Given) : Prop :=
  g.value ≠ "--" ∧ (g.apart = true → g.value.toList.head? ≠ some '-')

instance (g : Given) : Decidable g.IsRead :=
  inferInstanceAs (Decidable (_ ∧ _))

end Given

def Task.name? : Task → Option String
  | .createProject name | .createDomain name => some name
  | .generateMigrations name => name
  | _ => none

def Task.options (task : Task) (directory : String) : List (String × String) :=
  task.name?.toList.map (("name", ·)) ++ [("dir", directory)]

/-- A way to spell out a task in a directory. -/
structure Spelling (task : Task) (directory : String) where
  detailed : Bool
  given : List Given
  all : (given.map fun g => (g.word, g.value)).Perm (task.options directory)
  isRead : ∀ g ∈ given, g.IsRead

def Spelling.args {task : Task} {directory : String} (s : Spelling task directory) : List String :=
  (if s.detailed then ["-v"] else []) ++ task.words.1 :: task.words.2 :: s.given.flatMap Given.words

def written (word : List Char) : Option (List Char) → List Char
  | none => word
  | some value => word ++ '=' :: value

theorem splitValue_written {word : List Char} (hw : '=' ∉ word) (value : Option (List Char)) :
    splitValue (written word value) = (word, value) := by
  cases value with
  | none =>
    have hnone : Text.cut ['='] word = none :=
      Text.cut_eq_none_iff.2 fun h => hw (h.subset List.mem_cons_self)
    rw [written, splitValue, hnone]
  | some value =>
    have hpass : ∀ u v, word = u ++ v → v ≠ [] → ¬ ['='] <+: v ++ '=' :: value := by
      intro u v huv hv hp
      cases v with
      | nil => exact hv rfl
      | cons c v =>
        obtain rfl : '=' = c := (List.cons_prefix_cons.1 hp).1
        exact hw (by simp [huv])
    have hcut : Text.cut ['='] ('=' :: value) = some ([], value) := Text.cut_append_self ['='] value
    rw [written, splitValue, Text.cut_append_of_forall hpass, hcut]
    simp

namespace Level
variable {l : Level} {s word : String} {value : Option (List Char)}

theorem role_of_plain (h : s.toList.head? ≠ some '-') : l.role s = .ok .plain := by
  unfold role
  split
  · rename_i hs
    simp [hs] at h
  · rename_i hs
    simp [hs] at h
  · rfl

def optionWords (l : Level) : List String :=
  l.switches.map (·.word) ++ l.fields.map (·.word)

def NoEquals (l : Level) : Prop :=
  ∀ w ∈ l.optionWords, '=' ∉ w.toList

def Ignores (l : Level) (word : String) : Prop :=
  ∀ w ∈ l.optionWords, ¬ word.toList <+: w.toList

def Takes (l : Level) (word : String) : Prop :=
  ∃ f : Field, f.word = word ∧
    ∀ value, (l.longOptions (· == word.toList) value).head? = some ("--" ++ word, .field f value)

instance (l : Level) : Decidable l.NoEquals :=
  inferInstanceAs (Decidable (∀ _ ∈ _, _))

instance (l : Level) (word : String) : Decidable (l.Ignores word) :=
  inferInstanceAs (Decidable (∀ _ ∈ _, _))

theorem longOptions_eq_nil {test : List Char → Bool}
    (h : ∀ w ∈ l.optionWords, test w.toList = false)
    (value : Option (List Char)) : l.longOptions test value = [] := by
  rw [longOptions, List.append_eq_nil_iff, List.filterMap_eq_nil_iff, List.filterMap_eq_nil_iff]
  constructor
  · intro s hs
    rw [h s.word (List.mem_append_left _ (List.mem_map_of_mem hs)), if_neg Bool.false_ne_true]
  · intro f hf
    rw [h f.word (List.mem_append_right _ (List.mem_map_of_mem hf)), if_neg Bool.false_ne_true]

/-- A long option is looked up by its name, whatever its value. -/
theorem head?_exact (hl : l.NoEquals) (word : List Char) (value : Option (List Char)) :
    (l.longOptions (· == written word value) none ++ l.longOptions (· == word) value).head? =
      (l.longOptions (· == word) value).head? := by
  cases value with
  | none => rw [written, List.head?_append, Option.or_self]
  | some value =>
    have hnone : l.longOptions (· == written word (some value)) none = [] := by
      refine longOptions_eq_nil (fun w hm => ?_) none
      rw [beq_eq_false_iff_ne]
      intro he
      exact hl w hm (by simp [he, written])
    rw [hnone, List.nil_append]

theorem role_of_option {label : String} {option : Named} (hl : l.NoEquals)
    (hs : s.toList = '-' :: '-' :: written word.toList value) (hw : '=' ∉ word.toList)
    (h : (l.longOptions (· == word.toList) value).head? = some (label, option)) :
    l.role s = .ok (.named option) := by
  rw [← head?_exact hl] at h
  obtain ⟨rest, hfound⟩ := List.head?_eq_some_iff.1 h
  unfold role
  simp only [hs, splitValue_written hw, hfound]

theorem role_of_ignores (hl : l.NoEquals) (hs : s.toList = '-' :: '-' :: written word.toList value)
    (hw : '=' ∉ word.toList) (h : l.Ignores word) : l.role s = .ok (otherRole s) := by
  have hnone : l.longOptions (· == word.toList) value = [] := by
    refine longOptions_eq_nil (fun w hm => ?_) value
    rw [beq_eq_false_iff_ne]
    intro he
    exact h w hm (he ▸ List.prefix_refl _)
  have hexact : l.longOptions (· == written word.toList value) none ++
      l.longOptions (· == word.toList) value = [] := by
    rw [← List.head?_eq_none_iff, head?_exact hl, hnone, List.head?_nil]
  have hstarts : l.longOptions (word.toList.isPrefixOf ·) value = [] := by
    refine longOptions_eq_nil (fun w hm => ?_) value
    rw [Bool.eq_false_iff, ne_eq, List.isPrefixOf_iff_prefix]
    exact h w hm
  unfold role
  simp only [hs, splitValue_written hw, hexact, hstarts]

theorem words_cons {r : Role} {words : List Word} {rest : List String}
    (hs : s ≠ "--") (hr : l.role s = .ok r) (hrest : l.words rest = .ok words) :
    l.words (s :: rest) = .ok (⟨s, r⟩ :: words) := by
  rw [Level.words, hr, hrest]
  · rfl
  · exact hs

theorem words_run {ws : List String} (h : ∀ s ∈ ws, s ≠ "--" ∧ ∃ r, l.role s = .ok r) :
    ∃ words, l.words ws = .ok words ∧ words.map (·.text) = ws := by
  induction ws with
  | nil => exact ⟨[], rfl, rfl⟩
  | cons s ws ih =>
    obtain ⟨hs, r, hr⟩ := h s List.mem_cons_self
    obtain ⟨words, hwords, htexts⟩ := ih fun t ht => h t (List.mem_cons_of_mem s ht)
    exact ⟨⟨s, r⟩ :: words, words_cons hs hr hwords, by rw [List.map_cons, htexts]⟩

theorem readWords_choice {rest : List String} {words : List Word}
    {r : Reading} (hs : l.choices.any (·.word = s)) (hwords : words.map (·.text) = rest) :
    l.readWords (⟨s, .plain⟩ :: words) r = .ok { r with choice := some (s, rest) } := by
  have hne : l.choices.isEmpty = false := by
    cases hc : l.choices with
    | nil => simp [hc] at hs
    | cons c rest => rfl
  rw [readWords, if_neg (by simp [hne]), choose, if_pos hs, hwords]

theorem readWords_field {f : Field} {words : List Word} {r : Reading} {v : String} (hv : v ≠ "--") :
    l.readWords (⟨s, .named (.field f (some v.toList))⟩ :: words) r =
        l.readWords words { r with values := r.values ++ [(f.word, some v)] } ∧
      l.readWords (⟨s, .named (.field f none)⟩ :: ⟨v, .plain⟩ :: words) r =
        l.readWords words { r with values := r.values ++ [(f.word, some v)] } := by
  rw [readWords, readWords, Reading.give, Reading.give, String.ofList_toList, if_neg hv]
  exact ⟨rfl, rfl⟩

end Level

namespace Given
variable {l : Level} {g : Given}

theorem toList_together (g : Given) : ("--" ++ g.word ++ "=" ++ g.value).toList =
    '-' :: '-' :: written g.word.toList (some g.value.toList) := by
  simp [written]

theorem toList_alone (g : Given) :
    ("--" ++ g.word).toList = '-' :: '-' :: written g.word.toList none := by
  simp [written]

theorem together_ne (g : Given) : "--" ++ g.word ++ "=" ++ g.value ≠ "--" := by
  intro h
  simpa [toList_together, written] using congrArg String.toList h

theorem alone_ne (hne : g.word ≠ "") : "--" ++ g.word ≠ "--" := by
  intro h
  simpa [toList_alone, written, hne] using congrArg String.toList h

/-- Levels on the way to a task can pass over its options. -/
theorem role_of_ignores (hl : l.NoEquals) (hw : '=' ∉ g.word.toList) (hne : g.word ≠ "")
    (hi : l.Ignores g.word) (hg : g.IsRead) : ∀ s ∈ g.words, s ≠ "--" ∧ ∃ r, l.role s = .ok r := by
  intro s hs
  unfold words at hs
  split at hs
  · rename_i hapart
    rw [List.mem_pair] at hs
    rcases hs with rfl | rfl
    · exact ⟨alone_ne hne, _, Level.role_of_ignores hl g.toList_alone hw hi⟩
    · exact ⟨hg.1, _, Level.role_of_plain (hg.2 hapart)⟩
  · rw [List.mem_singleton] at hs
    rw [hs]
    exact ⟨g.together_ne, _, Level.role_of_ignores hl g.toList_together hw hi⟩

theorem readWords_words (hl : l.NoEquals) (hw : '=' ∉ g.word.toList)
    (hne : g.word ≠ "") (ht : l.Takes g.word)
    (hg : g.IsRead) {rest : List String} {more : List Word} (hmore : l.words rest = .ok more) :
    ∃ words, l.words (g.words ++ rest) = .ok words ∧ ∀ r, l.readWords words r =
      l.readWords more { r with values := r.values ++ [(g.word, some g.value)] } := by
  obtain ⟨f, hf, hoption⟩ := ht
  rw [← hf] at hoption ⊢
  unfold words
  split
  · rename_i hapart
    have hname : l.role ("--" ++ g.word) = .ok (.named (.field f none)) :=
      Level.role_of_option hl g.toList_alone hw (hf ▸ hoption none)
    refine ⟨_, Level.words_cons (alone_ne hne) hname
      (Level.words_cons hg.1 (Level.role_of_plain (hg.2 hapart)) hmore), fun r => ?_⟩
    exact (Level.readWords_field (s := "--" ++ g.word) hg.1).2
  · have hname : l.role ("--" ++ g.word ++ "=" ++ g.value) =
        .ok (.named (.field f (some g.value.toList))) :=
      Level.role_of_option hl g.toList_together hw (hf ▸ hoption _)
    exact ⟨_, Level.words_cons g.together_ne hname hmore, fun r => (Level.readWords_field hg.1).1⟩

end Given

namespace Level
variable {l : Level} {given : List Given}

theorem readWords_given (hl : l.NoEquals)
    (h : ∀ g ∈ given, '=' ∉ g.word.toList ∧ g.word ≠ "" ∧ l.Takes g.word ∧ g.IsRead) :
    ∃ words, l.words (given.flatMap Given.words) = .ok words ∧ ∀ r, l.readWords words r =
      .ok { r with values := r.values ++ given.map fun g => (g.word, some g.value) } := by
  induction given with
  | nil => exact ⟨[], rfl, fun r => by simp [readWords]⟩
  | cons g given ih =>
    obtain ⟨hw, hne, ht, hg⟩ := h g List.mem_cons_self
    obtain ⟨more, hmore, hread⟩ := ih fun g' hg' => h g' (List.mem_cons_of_mem g hg')
    obtain ⟨words, hwords, hstep⟩ := g.readWords_words hl hw hne ht hg hmore
    exact ⟨words, hwords, fun r => by rw [hstep, hread]; simp⟩

theorem readWords_words {word : String} {rest : List String} (hw : word.toList.head? ≠ some '-')
    (hc : l.choices.any (·.word = word)) (hrest : ∀ s ∈ rest, s ≠ "--" ∧ ∃ r, l.role s = .ok r) :
    ∃ words, l.words (word :: rest) = .ok words ∧
      ∀ r, l.readWords words r = .ok { r with choice := some (word, rest) } := by
  obtain ⟨words, hwords, htexts⟩ := words_run hrest
  have hne : word ≠ "--" := by
    rintro rfl
    exact hw rfl
  exact ⟨_, words_cons hne (role_of_plain hw) hwords, fun r => readWords_choice hc htexts⟩

theorem read_run {args : List String} {words : List Word}
    {r : Reading} (hwords : l.words args = .ok words) (hread : l.readWords words {} = .ok r)
    (hr : ∀ f ∈ l.fields, f.required = true → r.value? f.word ≠ none) : l.read args = .ok r := by
  have hnone : (l.fields.filter fun f => f.required && (r.value? f.word).isNone) = [] := by
    rw [List.filter_eq_nil_iff]
    intro f hf h
    rw [Bool.and_eq_true] at h
    exact hr f hf h.1 (Option.isNone_iff_eq_none.1 h.2)
  unfold read
  simp only [hwords, hread, hnone, bind, Except.bind]
  rfl

end Level

namespace Spelling
variable {task : Task} {directory : String} (s : Spelling task directory)

theorem word_mem {g : Given} (hg : g ∈ s.given) : g.word = "name" ∨ g.word = "dir" := by
  have hm : (g.word, g.value) ∈ task.options directory := s.all.subset (List.mem_map_of_mem hg)
  rw [Task.options, List.mem_append, List.mem_singleton, List.mem_map] at hm
  rcases hm with ⟨name, -, h⟩ | h
  · exact .inl (Prod.mk.inj h).1.symm
  · exact .inr (Prod.mk.inj h).1

/-- The levels on the way to a task pass over its options. -/
theorem passed {l : Level} (hl : l ∈ [Level.top, .create, .migrate, .run]) :
    ∀ w ∈ s.given.flatMap Given.words, w ≠ "--" ∧ ∃ r, l.role w = .ok r := by
  have hlevels : ∀ l ∈ [Level.top, .create, .migrate, .run],
      l.NoEquals ∧ l.Ignores "name" ∧ l.Ignores "dir" := by
    decide
  obtain ⟨hequals, hname, hdir⟩ := hlevels l hl
  intro w hw
  obtain ⟨g, hg, hw⟩ := List.mem_flatMap.1 hw
  rcases s.word_mem hg with h | h
  · exact Given.role_of_ignores hequals (by rw [h]; decide) (by rw [h]; decide) (h ▸ hname)
      (s.isRead g hg) w hw
  · exact Given.role_of_ignores hequals (by rw [h]; decide) (by rw [h]; decide) (h ▸ hdir)
      (s.isRead g hg) w hw

def values : List (String × Option String) :=
  s.given.map fun g => (g.word, some g.value)

theorem mem_values_iff {p : String × Option String} :
    p ∈ s.values ↔ p ∈ (task.options directory).map fun o => (o.1, some o.2) := by
  rw [← (s.all.map _).mem_iff, List.map_map]
  rfl

end Spelling

theorem Reading.value?_eq {r : Reading} {word : String} {v : Option (Option String)}
    (h : ∀ x, (word, x) ∈ r.values ↔ v = some x) : r.value? word = v := by
  rw [value?, List.findRev?_eq_find?_reverse]
  cases hfound : r.values.reverse.find? (·.1 = word) with
  | none =>
    cases v with
    | none => rfl
    | some x =>
      have hm := List.find?_eq_none.1 hfound (word, x) (List.mem_reverse.2 ((h x).2 rfl))
      simp at hm
  | some p =>
    obtain ⟨name, x⟩ := p
    obtain rfl : name = word := by simpa using List.find?_some hfound
    rw [(h x).1 (List.mem_reverse.1 (List.mem_of_find?_eq_some hfound))]
    rfl

/-- A level has the options of a task, and a reading with the task's name gives the task. -/
structure Level.Serves (l : Level) (build : Reading → Task) (task : Task) : Prop where
  noEquals : l.NoEquals
  takesDirectory : l.Takes "dir"
  takesName : task.name? ≠ none → l.Takes "name"
  required : ∀ f ∈ l.fields, f.required = true → f.word = "name" ∧ task.name? ≠ none
  build_eq : ∀ r : Reading, r.name? = task.name? → build r = task

theorem Level.serves_nameless (group : Level) (word : String) {build : Reading → Task} {task : Task}
    (hn : task.name? = none) (hb : ∀ r, build r = task) :
    (Level.task group word []).Serves build task where
  noEquals := show ∀ w ∈ ["help", "dir"], '=' ∉ w.toList by decide
  takesDirectory := ⟨directory, rfl, fun _ => by simp [longOptions, Level.task, directory, help]⟩
  takesName := fun h => absurd hn h
  required := by simp [Level.task, directory]
  build_eq := fun r _ => hb r

theorem Level.serves_named (group : Level) (word about : String) {required : Bool}
    {build : Reading → Task} {task : Task} (hr : required = true → task.name? ≠ none)
    (hb : ∀ r : Reading, r.name? = task.name? → build r = task) :
    (Level.task group word [nameField about required]).Serves build task where
  noEquals := show ∀ w ∈ ["help", "name", "dir"], '=' ∉ w.toList by decide
  takesDirectory :=
    ⟨directory, rfl, fun _ => by simp [longOptions, Level.task, directory, help, nameField]⟩
  takesName := fun _ => ⟨nameField about required, rfl, fun _ => by
    simp [longOptions, Level.task, directory, help, nameField]⟩
  required := by simpa [Level.task, directory, nameField] using hr
  build_eq := hb

theorem taskLevel_serves (task : Task) : (taskLevel task.words.1 task.words.2).1.Serves
    (taskLevel task.words.1 task.words.2).2 task := by
  cases task with
  | createProject name =>
    exact Level.serves_named _ _ _ (by simp [Task.name?]) fun r h =>
      congrArg (fun given : Option String => Task.createProject (given.getD "")) h
  | createDomain name =>
    exact Level.serves_named _ _ _ (by simp [Task.name?]) fun r h =>
      congrArg (fun given : Option String => Task.createDomain (given.getD "")) h
  | generateMigrations name =>
    exact Level.serves_named _ _ _ (by simp) fun r h => congrArg Task.generateMigrations h
  | createDocs | runMigrations | runDevelopment | runProduction | build =>
    exact Level.serves_nameless _ _ rfl fun _ => rfl

/-- The first word of a task is a choice at the top, the second one behind it, and neither looks
like an option. -/
theorem Task.choices (task : Task) :
    groupLevel task.words.1 ∈ [Level.top, .create, .migrate, .run] ∧
    (groupLevel task.words.1).fields = [] ∧ Level.top.choices.any (·.word = task.words.1) ∧
    (groupLevel task.words.1).choices.any (·.word = task.words.2) ∧
      task.words.1.toList.head? ≠ some '-' ∧ task.words.2.toList.head? ≠ some '-' := by
  have h : ∀ words ∈ [("create", "project"), ("create", "domain"), ("create", "docs"),
    ("migrate", "generate"), ("migrate", "run"), ("run", "dev"), ("run", "prod"), ("run", "build")],
      groupLevel words.1 ∈ [Level.top, .create, .migrate, .run] ∧ (groupLevel words.1).fields = [] ∧
        Level.top.choices.any (·.word = words.1) ∧
        (groupLevel words.1).choices.any (·.word = words.2) ∧
        words.1.toList.head? ≠ some '-' ∧ words.2.toList.head? ≠ some '-' := by
    decide
  exact h task.words (by cases task <;> simp [Task.words])

namespace Spelling
variable {task : Task} {directory : String} (s : Spelling task directory)

theorem name?_eq {r : Reading} (hr : r.values = s.values) : r.name? = task.name? := by
  have hv : r.value? "name" = task.name?.map some := by
    refine Reading.value?_eq fun x => ?_
    rw [hr, mem_values_iff]
    cases hn : task.name? <;> simp [Task.options, hn, eq_comm]
  rw [Reading.name?, hv, Option.map_map]
  cases task.name? <;> rfl

theorem value?_directory {r : Reading} (hr : r.values = s.values) :
    r.value? "dir" = some (some directory) := by
  refine Reading.value?_eq fun x => ?_
  rw [hr, mem_values_iff]
  cases hn : task.name? <;> simp [Task.options, hn, eq_comm]

theorem read_leaf {l : Level} {build : Reading → Task} (hl : l.Serves build task) :
    l.read (s.given.flatMap Given.words) = .ok { values := s.values } := by
  have hgiven : ∀ g ∈ s.given, '=' ∉ g.word.toList ∧ g.word ≠ "" ∧ l.Takes g.word ∧ g.IsRead := by
    intro g hg
    rcases s.word_mem hg with h | h
    · rw [h]
      refine ⟨by decide, by decide, hl.takesName fun hn => ?_, s.isRead g hg⟩
      have hm : (g.word, some g.value) ∈ s.values := List.mem_map_of_mem hg
      simp [mem_values_iff, Task.options, hn, h] at hm
    · rw [h]
      exact ⟨by decide, by decide, hl.takesDirectory, s.isRead g hg⟩
  obtain ⟨words, hwords, hread⟩ := Level.readWords_given hl.noEquals hgiven
  refine Level.read_run hwords (hread {}) fun f hf hrequired hv => ?_
  obtain ⟨hword, hn⟩ := hl.required f hf hrequired
  have hname := s.name?_eq (r := { values := s.values }) rfl
  rw [Reading.name?, ← hword, hv] at hname
  exact hn hname.symm

/-- What is behind the first word of a task is left to the level behind that word. -/
theorem read_top : Level.top.read s.args = .ok {
    switches := if s.detailed then [verbose] else []
    choice := some (task.words.1, task.words.2 :: s.given.flatMap Given.words) } := by
  obtain ⟨-, -, hchoice, -, hfirst, hsecond⟩ := task.choices
  have hrest : ∀ w ∈ task.words.2 :: s.given.flatMap Given.words,
      w ≠ "--" ∧ ∃ r, Level.top.role w = .ok r := by
    intro w hw
    rcases List.mem_cons.1 hw with rfl | hw
    · exact ⟨fun h => hsecond (by rw [h]; rfl), .plain, Level.role_of_plain hsecond⟩
    · exact s.passed (by simp) w hw
  obtain ⟨words, hwords, hread⟩ := Level.readWords_words hfirst hchoice hrest
  unfold args
  cases s.detailed with
  | false => exact Level.read_run hwords (hread {}) (by simp [Level.top])
  | true =>
    have hrole : Level.top.role "-v" = .ok (.named (.letter verbose none)) := by decide
    refine Level.read_run (Level.words_cons (by decide) hrole hwords) ?_ (by simp [Level.top])
    exact hread { switches := [verbose] }

theorem read_group : (groupLevel task.words.1).read (task.words.2 :: s.given.flatMap Given.words) =
    .ok {choice := some (task.words.2, s.given.flatMap Given.words) } := by
  obtain ⟨hgroup, hfields, -, hchoice, -, hsecond⟩ := task.choices
  obtain ⟨words, hwords, hread⟩ := Level.readWords_words hsecond hchoice (s.passed hgroup)
  exact Level.read_run hwords (hread {}) (by simp [hfields])

/-- A command line that spells out a task is read as the task, in the directory, with the
values as they are. -/
theorem read_args : Command.read s.args = .ok ⟨task, some directory, s.detailed⟩ := by
  have hserves := taskLevel_serves task
  have hleaf := s.read_leaf hserves
  have htask := hserves.build_eq { values := s.values } (s.name?_eq rfl)
  have hverbose : decide (verbose ∈ if s.detailed then [verbose] else []) = s.detailed := by
    cases s.detailed <;> rfl
  simp only [Command.read, s.read_top, s.read_group, hleaf, allUsed, bind, Except.bind,
    pure, Except.pure, List.append_nil, htask, s.value?_directory (r := { values := s.values }) rfl,
    Option.getD_some, hverbose]

end Spelling
end ApiScaffold.CommandLine
