import ApiScaffold.Proofs.Settings.Shape

/-! Settings fall back to their defaults one by one: each is told by the value of its own key. In a
section null is told as a text like any other value, and outside all sections whatever counts as
nothing is as good as absent. -/
namespace ApiScaffold
open Yaml (Document Value valueFor?)
variable {w w' : Workspace} {project : Path} {d : Document} {v : Value} {entries : Settings.Entries}
  {settings : Settings} {s : Setting} {t : String}

namespace Setting
open Settings (Chooses chooses_some_iff)

/-- A value that counts for a setting as if null alone were as good as absent: null leaves the
setting as it is by default, and any other value is told as its text. -/
def Honours (d : Document) (s : Setting) (v : Value) : Prop :=
  match s.sectionKey? with
  | none => v = .atom .null ∨ d.text v = .ok "" ∨ d.isFalsy v = false ∧ ∃ t, d.text v = .ok t
  | some _ => v ≠ .atom .null ∧ ∃ t, d.text v = .ok t

theorem text_null : d.text (.atom .null) = .ok "None" :=
  rfl

theorem default_ne : s.default ≠ "None" := by
  cases s <;> decide

theorem Honours.exists_text (h : s.Honours d v) (hset : s.unset d v = false) :
    ∃ t, d.text v = .ok t := by
  unfold Honours at h
  split at h
  · rename_i hk
    rcases h with rfl | ht | ⟨-, ht⟩
    · simp [unset, hk, Document.isFalsy, Yaml.Atom.isFalsy] at hset
    · exact ⟨_, ht⟩
    · exact ht
  · exact h.2

/-- What a setting chooses is what it would choose if null alone were as good as absent. -/
theorem chooses_null_iff (h : Chooses d (s.unset d · = true) s.default (some v) t) :
    Chooses d (· = .atom .null) s.default (some v) t ↔ s.Honours d v := by
  have hnull : d.isFalsy (.atom .null) = true := rfl
  rw [chooses_some_iff] at h ⊢
  unfold Honours
  cases hk : s.sectionKey? with
  | none =>
    have hunset : s.unset d v = d.isFalsy v := by simp [unset, hk]
    rw [hunset, default_of_top hk] at h
    rw [default_of_top hk]
    rcases h with ⟨hfalsy, rfl⟩ | ⟨hset, ht⟩
    · by_cases hv : v = .atom .null <;> simp [hv, hfalsy]
    · have hv : v ≠ .atom .null := fun hv => hset (hv ▸ hnull)
      simp [hv, hset, ht]
  | some key =>
    have hunset : s.unset d v = false := by simp [unset, hk]
    simp only [hunset, Bool.false_eq_true, false_and, false_or, not_false_eq_true, true_and] at h
    by_cases hv : v = .atom .null
    · rw [hv, text_null] at h
      simp [hv, ← Except.ok.inj h, default_ne.symm]
    · simp [hv, h]

end Setting

namespace Settings

theorem load_eq_ok_iff (hcargo : w.cargo = none) (h : SpellsOut w project d) :
    load project w = .ok settings w' ↔
    ofDocument (project / Failure.settingsFile) d = .ok settings ∧ w' = w := by
  cases hd : ofDocument (project / Failure.settingsFile) d with
  | ok settings' => simp [load_of_spellsOut h _ hd, hcargo, chosen, eq_comm]
  | error f => simp [load_of_spellsOut h _ hd]

theorem exists_ok_iff (h : SpellsOut w project d) : (∃ settings, load project w = .ok settings w) ↔
    ¬ (Misshapen (d.isFalsy · = true) d ∨ Untellable d) := by
  rw [← ofDocument_error_iff h.closed (project / Failure.settingsFile)]
  cases hd : ofDocument (project / Failure.settingsFile) d with
  | ok settings => simp [load_of_spellsOut h _ hd]
  | error f => simp [load_of_spellsOut h _ hd]

theorem not_misshapen (hroot : d.entries? d.root = some entries)
    (hsections : ∀ key ∈ sectionKeys, ∀ v, valueFor? key entries = some v → v = .atom .null ∨
      d.entries? v ≠ none) : ¬ Misshapen (d.isFalsy · = true) d := by
  rintro ⟨v, rfl | ⟨key, hkey, hv⟩, hfalsy, hnone⟩
  · rw [hroot] at hnone
    cases hnone
  · rw [entriesOf, hroot] at hv
    exact (hsections key hkey v hv).elim (fun hnull => hfalsy (hnull ▸ rfl)) (· hnone)

/-- Settings that are loaded from a file, and how each of them is chosen. Loading ends well if and
only if each setting has a text, and each is its default for null or nothing and else the text of
its value, if and only if those values are honoured. -/
theorem load_chooses (hcargo : w.cargo = none)
    (h : SpellsOut w project d) (hroot : d.entries? d.root = some entries)
    (hsections : ∀ key ∈ sectionKeys, ∀ v, valueFor? key entries = some v →
      v = .atom .null ∨ d.entries? v ≠ none) :
    ((∃ settings, load project w = .ok settings w) ↔ ¬ Untellable d) ∧
    (∀ settings w', load project w = .ok settings w' → w' = w ∧ ∀ s : Setting,
      Chooses d (s.unset d · = true) s.default (s.value? d entries) (s.of settings)) ∧
    ((∃ settings, load project w = .ok settings w ∧
        ∀ s : Setting, Chooses d (· = .atom .null) s.default (s.value? d entries) (s.of settings)) ↔
      ∀ (s : Setting) (v : Value), s.value? d entries = some v → s.Honours d v) := by
  have hentries : entriesOf d = entries := by rw [entriesOf, hroot]; rfl
  have hshape := not_misshapen hroot hsections
  have hload : (∃ settings, load project w = .ok settings w) ↔ ¬ Untellable d := by
    rw [exists_ok_iff h, or_iff_right hshape]
  have hchooses (settings : Settings) (w' : Workspace) (hok : load project w = .ok settings w') :
      w' = w ∧ ∀ s : Setting,
        Chooses d (s.unset d · = true) s.default (s.value? d entries) (s.of settings) := by
    obtain ⟨hd, rfl⟩ := (load_eq_ok_iff hcargo h).1 hok
    exact ⟨rfl, hentries ▸ (ofDocument_eq_ok_iff.1 hd).2⟩
  refine ⟨hload, hchooses, ?_, ?_⟩
  · rintro ⟨settings, hok, hnull⟩ s v hv
    have hs := (hchooses settings w hok).2 s
    have hsnull := hnull s
    rw [hv] at hs hsnull
    exact (Setting.chooses_null_iff hs).1 hsnull
  · intro hhonours
    have htell : ¬ Untellable d := by
      rintro ⟨s, v, hv, hset, ht⟩
      obtain ⟨t, hok⟩ := (hhonours s v (hentries ▸ hv)).exists_text hset
      exact ht t hok
    obtain ⟨settings, hok⟩ := hload.2 htell
    refine ⟨settings, hok, fun s => ?_⟩
    have hs := (hchooses settings w hok).2 s
    cases hv : s.value? d entries with
    | none =>
      rw [hv, chooses_none_iff] at hs
      exact chooses_none_iff.2 hs
    | some v =>
      rw [hv] at hs
      exact (Setting.chooses_null_iff hs).2 (hhonours s v hv)

def flagForProgram : Document :=
  ⟨.collection 0,
    #[some (.mapping
        [(.text (Text.CodePoint.ofChars "name".toList),
            .atom (.text (Text.CodePoint.ofChars "shop".toList))),
          (.text (Text.CodePoint.ofChars "tools".toList), .collection 4)]),
      none, none, none,
      some (.mapping [(.text (Text.CodePoint.ofChars "cargo".toList), .atom (.bool true))]),
      none, none]⟩

theorem load_chooses_program :
    ∃ w : Workspace, w.cargo = none ∧ SpellsOut w ⟨.here, []⟩ flagForProgram ∧
    load ⟨.here, []⟩ w = .ok { name := "shop", tools := { cargo := "True" } } w := by
  have hspelled : Document.ofText "name: shop\ntools:\n  cargo: true\n".toList none =
      .ok flagForProgram := by
    decide +kernel
  obtain ⟨w, hcargo, h⟩ := exists_spellsOut (by decide) (by decide) (by decide) (by decide) hspelled
  have hroot : flagForProgram.entries? flagForProgram.root = some (entriesOf flagForProgram) := rfl
  have hsections : ∀ key ∈ sectionKeys, ∀ v, valueFor? key (entriesOf flagForProgram) = some v →
      v = .atom .null ∨ flagForProgram.entries? v ≠ none := by
    decide
  have hhonours : ∀ (s : Setting) (v : Value),
      s.value? flagForProgram (entriesOf flagForProgram) = some v → s.Honours flagForProgram v := by
    intro s v hv
    cases s
    case name =>
      obtain rfl := Option.some.inj hv
      exact .inr (.inr ⟨rfl, "shop", rfl⟩)
    case cargo =>
      obtain rfl := Option.some.inj hv
      exact ⟨by decide, "True", rfl⟩
    all_goals cases hv
  obtain ⟨settings, hload, -⟩ := (load_chooses hcargo h hroot hsections).2.2.2 hhonours
  obtain ⟨hd, -⟩ := (load_eq_ok_iff hcargo h).1 hload
  have hread (file : Path) : ofDocument file flagForProgram =
      .ok { name := "shop", tools := { cargo := "True" } } := by
    rfl
  obtain rfl := Except.ok.inj ((hread _).symm.trans hd)
  exact ⟨w, hcargo, h, hload⟩

def nullInSection : Document :=
  ⟨.collection 0,
    #[some (.mapping [(.text (Text.CodePoint.ofChars "layout".toList), .collection 2)]), none,
    some (.mapping [(.text (Text.CodePoint.ofChars "docs_file".toList), .atom .null)]), none, none]⟩

/-- Null in a section is told as a text, so the setting is not its default. -/
theorem not_forall_load_defaults :
    ¬ ∀ (w : Workspace) (project : Path) (d : Document) (entries : Entries),
      w.cargo = none → SpellsOut w project d → d.entries? d.root = some entries →
      (∀ key ∈ sectionKeys, ∀ v, valueFor? key entries = some v →
        v = .atom .null ∨ d.entries? v ≠ none) →
      ∃ settings, load project w = .ok settings w ∧ ∀ s : Setting,
        Chooses d (· = .atom .null) s.default (s.value? d entries) (s.of settings) := by
  intro hall
  have hspelled : Document.ofText "layout:\n  docs_file:\n".toList none = .ok nullInSection := by
    decide +kernel
  obtain ⟨w, hcargo, h⟩ := exists_spellsOut (by decide) (by decide) (by decide) (by decide) hspelled
  obtain ⟨settings, hload, hnull⟩ := hall w _ _ _ hcargo h rfl (by decide)
  obtain ⟨hd, -⟩ := (load_eq_ok_iff hcargo h).1 hload
  have hread (file : Path) :
      ofDocument file nullInSection = .ok { layout := { docsFile := "None" } } := by
    rfl
  obtain rfl := Except.ok.inj ((hread _).symm.trans hd)
  rcases chooses_some_iff.1 (hnull .docsFile) with ⟨-, hdefault⟩ | ⟨hne, -⟩
  · exact absurd hdefault (by decide)
  · exact hne rfl

end Settings
end ApiScaffold
