import ApiScaffold.Project
import ApiScaffold.Proofs.Text.Segments
import ApiScaffold.Proofs.Text.Substitution

/-! The tokens in the template of a project. They stand apart: a token has characters around it that
no token has. -/
namespace ApiScaffold.Template
open ApiScaffold.Project (nameToken crateToken)
open Text (ofLines toList_ofLines)
variable {lines : List String}

theorem forall_lines_nil (P : List Char → Prop) : ∀ l ∈ ([] : List String), P l.toList := by
  simp

theorem forall_lines_cons (P : List Char → Prop) {line : List Char} (h : P line)
    (hs : ∀ l ∈ lines, P l.toList) : ∀ l ∈ String.ofList line :: lines, P l.toList := by
  intro l hl
  rcases List.mem_cons.1 hl with rfl | hl
  · rwa [String.toList_ofList]
  · exact hs l hl

theorem nameToken_toList : nameToken.toList =
    ['_', '_', 'P', 'R', 'O', 'J', 'E', 'C', 'T', '_', 'N', 'A', 'M', 'E', '_', '_'] :=
  String.toList_ofList

theorem crateToken_toList : crateToken.toList =
    ['_', '_', 'C', 'R', 'A', 'T', 'E', '_', 'I', 'D', 'E', 'N', 'T', '_', '_'] :=
  String.toList_ofList

/-- A line that has neither of two letters, of which each token has one. -/
def Plain (line : List Char) : Prop :=
  'J' ∉ line ∧ 'C' ∉ line

instance (line : List Char) : Decidable (Plain line) :=
  inferInstanceAs (Decidable (_ ∧ _))

theorem Plain.not_infix {s : List Char} (h : Plain s) :
    ¬ nameToken.toList <:+: s ∧ ¬ crateToken.toList <:+: s := by
  rw [nameToken_toList, crateToken_toList]
  exact ⟨fun hi => h.1 (hi.mem (by decide)), fun hi => h.2 (hi.mem (by decide))⟩

theorem not_infix_tokens (h : ∀ l ∈ lines, Plain l.toList) :
    ¬ nameToken.toList <:+: (ofLines lines).toList ∧
    ¬ crateToken.toList <:+: (ofLines lines).toList := by
  have hline (c : Char) (hne : c ≠ '\n') (hc : c ∈ (ofLines lines).toList) : ∃ l ∈ lines,
      c ∈ l.toList := by
    rw [toList_ofLines, Text.ended, List.flatMap_map, List.mem_flatMap] at hc
    obtain ⟨l, hl, hm⟩ := hc
    exact ⟨l, hl, by simpa [hne] using hm⟩
  refine Plain.not_infix ⟨fun hm => ?_, fun hm => ?_⟩
  · obtain ⟨l, hl, hj⟩ := hline 'J' (by decide) hm
    exact (h l hl).1 hj
  · obtain ⟨l, hl, hc⟩ := hline 'C' (by decide) hm
    exact (h l hl).2 hc

/-- A character that no token has. -/
def isSeparator (c : Char) : Bool :=
  !(c.isUpper || c = '_')

theorem tokens_no_separator :
    ∀ c ∈ nameToken.toList ++ crateToken.toList, isSeparator c = false := by
  have hall : ((nameToken.toList ++ crateToken.toList).all fun c => !isSeparator c) = true := by
    rw [nameToken_toList, crateToken_toList]
    decide
  intro c hc
  simpa using List.all_eq_true.1 hall c hc

def Spaced (line : List Char) : Prop :=
  Plain line ∨ Text.Apart isSeparator
    ['_', '_', 'P', 'R', 'O', 'J', 'E', 'C', 'T', '_', 'N', 'A', 'M', 'E', '_', '_']
    ['_', '_', 'C', 'R', 'A', 'T', 'E', '_', 'I', 'D', 'E', 'N', 'T', '_', '_'] line

instance (line : List Char) : Decidable (Spaced line) :=
  inferInstanceAs (Decidable (_ ∨ _))

theorem Spaced.apart {line : List Char} (h : Spaced line) :
    Text.Apart isSeparator nameToken.toList crateToken.toList line := by
  rcases h with h | h
  · exact Text.apart_of_not_infix h.not_infix.1 h.not_infix.2
  · rwa [nameToken_toList, crateToken_toList]

theorem apart_ofLines (h : ∀ l ∈ lines, Spaced l.toList) :
    Text.Apart isSeparator nameToken.toList crateToken.toList (ofLines lines).toList := by
  rw [toList_ofLines]
  refine Text.apart_ended (by decide) (by decide) (by decide) fun line hl => ?_
  obtain ⟨l, hm, rfl⟩ := List.mem_map.1 hl
  exact (h l hm).apart

/-- In every file of a new project the tokens stand apart. -/
theorem project_apart : ∀ f ∈ project.files,
    Text.Apart isSeparator nameToken.toList crateToken.toList f.2.toList := by
  intro f hf
  simp only [project, List.mem_cons, List.not_mem_nil, or_false] at hf
  rcases hf with rfl | rfl | rfl | rfl | rfl | rfl | rfl | rfl | rfl | rfl | rfl | rfl |
    rfl | rfl | rfl
  case inr.inr.inr.inr.inr.inr.inr.inl => exact apart_ofLines (forall_lines_nil Spaced)
  all_goals
    refine apart_ofLines ?_
    repeat' first | exact forall_lines_nil Spaced | refine forall_lines_cons Spaced (by decide) ?_

end ApiScaffold.Template
