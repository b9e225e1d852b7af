import ApiScaffold.Yaml.Token.Scalar
import Mathlib.Data.List.Chain

/-! Scalars in single quotes. A text comes back as it is if and only if it has no next line
character, no blank beside a separator, and no mark between documents behind one. Else it comes back
changed, or not at all. -/
namespace ApiScaffold.Yaml

theorem atDocumentMark_cons (a b c : Char) (s : List Char) : atDocumentMark (a :: b :: c :: s) =
    (([a, b, c] = ['-', '-', '-'] || [a, b, c] = ['.', '.', '.']) && atBlank s) := by
  by_cases hdash : [a, b, c] = ['-', '-', '-']
  · obtain ⟨rfl, rfl, rfl⟩ : a = '-' ∧ b = '-' ∧ c = '-' := by simpa using hdash
    simp [atDocumentMark]
  · by_cases hdot : [a, b, c] = ['.', '.', '.']
    · obtain ⟨rfl, rfl, rfl⟩ : a = '.' ∧ b = '.' ∧ c = '.' := by simpa using hdot
      simp [atDocumentMark]
    · rw [atDocumentMark]
      · simp [hdash, hdot]
      · intro rest h
        injections
        simp_all
      · intro rest h
        injections
        simp_all

/-- A mark ends before a quote, so it makes no difference what is behind that. -/
theorem atDocumentMark_quote (s r : List Char) :
    atDocumentMark (s ++ '\'' :: r) = atDocumentMark (s ++ ['\'']) := by
  match s with
  | [] => simp [atDocumentMark]
  | [a] => simp [atDocumentMark]
  | [a, b] => simp [atDocumentMark]
  | [a, b, c] => simp [atDocumentMark_cons, atBlank]
  | a :: b :: c :: d :: s => simp [atDocumentMark_cons, atBlank]

def isBlank (c : Char) : Bool :=
  c = ' ' || c = '\t'

theorem atBlank_cons (c : Char) (s : List Char) : atBlank (c :: s) = (isBlank c || isBreak c) := by
  simp [atBlank, isBlank]

def marks : List (List Char) :=
  [['-', '-', '-'], ['.', '.', '.']]

/-- A mark in front of a quote is followed by a blank or a line end. -/
theorem atDocumentMark_iff {s : List Char} : atDocumentMark (s ++ ['\'']) = true ↔
    ∃ mark ∈ marks, ∃ c r, s = mark ++ c :: r ∧ (isBlank c || isBreak c) = true := by
  constructor
  · intro h
    match s with
    | [] | [_] | [_, _] => simp [atDocumentMark] at h
    | [a, b, c] =>
      rw [List.cons_append, List.cons_append, List.cons_append, atDocumentMark_cons] at h
      simp [atBlank, isBreak] at h
    | a :: b :: c :: d :: r =>
      simp only [List.cons_append, atDocumentMark_cons, atBlank_cons, Bool.and_eq_true,
        Bool.or_eq_true, decide_eq_true_eq] at h
      exact ⟨[a, b, c], by simpa [marks] using h.1, d, r, rfl, by simpa using h.2⟩
  · rintro ⟨mark, hmark, c, r, rfl, hc⟩
    rw [← hc, ← atBlank_cons c (r ++ ['\''])]
    obtain rfl | rfl : mark = ['-', '-', '-'] ∨ mark = ['.', '.', '.'] := by
      simpa [marks] using hmark
    · rfl
    · rfl

theorem isBreak_of_isBlank {c : Char} (h : isBlank c = true) : isBreak c = false := by
  rcases (by simpa [isBlank] using h : c = ' ' ∨ c = '\t') with rfl | rfl <;> decide

theorem isBlank_of_isBreak {c : Char} (h : isBreak c = true) : isBlank c = false := by
  cases hblank : isBlank c
  · rfl
  · rw [isBreak_of_isBlank hblank] at h
    cases h

theorem breakText_eq_self {c : Char} (h : isBreak c = true) (hc : c ≠ '\u0085') :
    breakText c = c := by
  unfold breakText
  split
  · rfl
  · simp_all [isBreak]

theorem isBreak_breakText (c : Char) : isBreak (breakText c) = true ∧ breakText c ≠ '\u0085' := by
  unfold breakText
  split
  · rename_i h
    rcases (by simpa using h : c = '\u2028' ∨ c = '\u2029') with rfl | rfl <;> decide
  · decide

/-- Characters between which nothing is dropped: not a blank beside a line end. -/
def Apart (a b : Char) : Prop :=
  ¬ (isBlank a = true ∧ isBreak b = true) ∧ ¬ (isBreak a = true ∧ isBlank b = true)

instance : DecidableRel Apart := fun _ _ => inferInstanceAs (Decidable (_ ∧ _))

theorem not_isChain_append {l : List Char} {c : Char} (hl : l ≠ []) (h : ∀ a ∈ l, ¬ Apart a c)
    (s : List Char) : ¬ (l ++ c :: s).IsChain Apart := by
  intro hchain
  obtain ⟨-, -, hjoint⟩ := List.isChain_append.1 hchain
  exact h _ (List.getLast_mem hl) (hjoint _ (List.getLast?_eq_some_getLast hl) c rfl)

namespace Scalar
open Text (CodePoint)

namespace QuotedState

/-- The characters taken that no text is given for yet. -/
def pending : QuotedState → List Char
  | .blanks run => run
  | .folded first more => first :: more
  | _ => []

def InSingle : QuotedState → Prop
  | .text => True
  | .blanks run => run ≠ [] ∧ ∀ c ∈ run, isBlank c = true
  | .folded first more => isBreak first = true ∧ ∀ c ∈ more, isBreak c = true ∧ c ≠ '\u0085'
  | _ => False

theorem inSingle_text : InSingle .text := trivial

variable {st : QuotedState} {c : Char}

theorem InSingle.blank (h : st.InSingle) (hc : isBlank c = true) : (st.blank c).InSingle := by
  cases st with
  | text => simp [QuotedState.blank, InSingle, hc]
  | blanks run =>
    refine ⟨by simp, fun d hd => ?_⟩
    rcases List.mem_append.1 hd with hd | hd
    · exact h.2 d hd
    · rw [List.mem_singleton.1 hd]
      exact hc
  | folded first more => exact h
  | joined | digits => exact h.elim

theorem InSingle.lineEnd (h : st.InSingle) (hc : isBreak c = true) : (st.lineEnd c).InSingle := by
  cases st with
  | text | blanks run => exact ⟨hc, by simp⟩
  | folded first more =>
    refine ⟨h.1, fun d hd => ?_⟩
    rcases List.mem_append.1 hd with hd | hd
    · exact h.2 d hd
    · rw [List.mem_singleton.1 hd]
      exact isBreak_breakText c
  | joined | digits => exact h.elim

theorem InSingle.not_mem_flush (h : st.InSingle) : '\u0085' ∉ st.flush := by
  cases st with
  | text => simp [flush]
  | blanks run => exact fun hmem => absurd (h.2 _ hmem) (by decide)
  | folded first more =>
    have hmore : '\u0085' ∉ more := fun hmem => (h.2 _ hmem).2 rfl
    change '\u0085' ∉ fold first more
    unfold fold
    split
    · exact List.not_mem_cons_of_ne_of_not_mem (isBreak_breakText first).2.symm hmore
    · split
      · decide
      · exact hmore
  | joined | digits => exact h.elim

theorem InSingle.length_flush (h : st.InSingle) : st.flush.length ≤ st.pending.length := by
  cases st with
  | text | blanks run => exact le_rfl
  | folded first more =>
    change (fold first more).length ≤ (first :: more).length
    unfold fold
    split
    · simp
    · split <;> simp
  | joined | digits => exact h.elim

theorem InSingle.isBreak {first : Char} {more : List Char} (h : (folded first more).InSingle) :
    ∀ d ∈ first :: more, Yaml.isBreak d = true := by
  intro d hd
  rcases List.mem_cons.1 hd with rfl | hd
  · exact h.1
  · exact (h.2 d hd).1

theorem InSingle.isChain_pending (h : st.InSingle) : st.pending.IsChain Apart := by
  refine List.Pairwise.isChain (List.pairwise_of_forall_mem_list fun a ha b hb => ?_)
  cases st with
  | text => cases ha
  | blanks run => simp [Apart, isBreak_of_isBlank (h.2 a ha), isBreak_of_isBlank (h.2 b hb)]
  | folded first more =>
    have hbreak := h.isBreak
    simp [Apart, isBlank_of_isBreak (hbreak a ha), isBlank_of_isBreak (hbreak b hb)]
  | joined | digits => exact h.elim

/-- Where all line ends are separators nothing pending is lost. -/
theorem InSingle.flush_eq (h : st.InSingle) (hp : ∀ d ∈ st.pending, d ≠ '\n' ∧ d ≠ '\u0085') :
    st.flush = st.pending := by
  cases st with
  | text | blanks run => rfl
  | folded first more =>
    obtain ⟨hfeed, hnext⟩ := hp first List.mem_cons_self
    have hfirst := breakText_eq_self h.1 hnext
    change fold first more = first :: more
    rw [fold, hfirst, if_pos hfeed]
  | joined | digits => exact h.elim

end QuotedState

open QuotedState

variable {st : QuotedState} {c : Char} {s r : List Char}

/-- The text that characters in single quotes stand for. -/
def unquoted : QuotedState → List Char → List Char
  | st, [] => st.flush
  | st, c :: s =>
    if isBlank c then unquoted (st.blank c) s
    else if isBreak c then unquoted (st.lineEnd c) s
    else st.flush ++ c :: unquoted .text s

def holdsMark : List Char → Bool
  | [] => false
  | c :: s => isBreak c && atDocumentMark (s ++ ['\'']) || holdsMark s

/-- A text holds a mark if one is directly behind a line end in it, with a blank or a line end
behind. -/
theorem holdsMark_iff {s : List Char} : holdsMark s = true ↔ ∃ front c mark d back,
    s = front ++ c :: (mark ++ d :: back) ∧ isBreak c = true ∧ mark ∈ marks ∧
    (isBlank d || isBreak d) = true := by
  induction s with
  | nil => simp [holdsMark]
  | cons c s ih =>
    rw [holdsMark, Bool.or_eq_true, Bool.and_eq_true, ih, atDocumentMark_iff]
    constructor
    · rintro (⟨hc, mark, hmark, d, back, rfl, hd⟩ | ⟨front, e, mark, d, back, rfl, h⟩)
      · exact ⟨[], c, mark, d, back, rfl, hc, hmark, hd⟩
      · exact ⟨c :: front, e, mark, d, back, rfl, h⟩
    · rintro ⟨front, e, mark, d, back, hs, he, hmark, hd⟩
      cases front with
      | nil =>
        obtain ⟨rfl, rfl⟩ := List.cons.inj hs
        exact .inl ⟨he, mark, hmark, d, back, rfl, hd⟩
      | cons a front =>
        obtain ⟨rfl, rfl⟩ := List.cons.inj hs
        exact .inr ⟨front, e, mark, d, back, rfl, he, hmark, hd⟩

theorem quoted_cons (hst : st.InSingle) (hc : c ≠ '\'') (s : List Char) : quoted false st (c :: s) =
    if isBlank c then emit [] 1 (quoted false (st.blank c) s)
    else if isBreak c then
      if atDocumentMark s then .error .malformed else emit [] 1 (quoted false (st.lineEnd c) s)
    else emit (st.flush ++ [c]) 1 (quoted false .text s) := by
  rw [quoted.eq_def]
  cases st with
  | digits => exact hst.elim
  | _ => simp [hc, isBlank]

theorem quoted_quote (hst : st.InSingle) (hr : r.head? ≠ some '\'') :
    quoted false st ('\'' :: r) = .ok (CodePoint.ofChars st.flush, 1) := by
  rw [quoted.eq_def]
  cases st with
  | digits => exact hst.elim
  | _ =>
    simp only [decide_true, Bool.not_false, Bool.and_self, if_true]
    split
    · exact absurd rfl hr
    · rfl

theorem emit_ok (text more : List Char) (taken n : Nat) :
    emit text taken (.ok (CodePoint.ofChars more, n)) =
    .ok (CodePoint.ofChars (text ++ more), taken + n) := by
  simp [emit, emitPoints, CodePoint.ofChars, Except.map]

/-- What a reader finds between single quotes. -/
theorem quoted_eq (hst : st.InSingle) (hs : '\'' ∉ s) (hr : r.head? ≠ some '\'') :
    quoted false st (s ++ '\'' :: r) =
      if holdsMark s then .error .malformed
          else .ok (CodePoint.ofChars (unquoted st s), s.length + 1) := by
  induction s generalizing st with
  | nil => exact quoted_quote hst hr
  | cons c s ih =>
    obtain ⟨hc, hs⟩ := List.ne_and_not_mem_of_not_mem_cons hs
    have hread (st' : QuotedState) (hst' : st'.InSingle) (text : List Char) :
        emit text 1 (quoted false st' (s ++ '\'' :: r)) =
          if holdsMark s then .error .malformed
          else .ok (CodePoint.ofChars (text ++ unquoted st' s), (c :: s).length + 1) := by
      rw [ih hst' hs]
      split
      · rfl
      · rw [emit_ok, List.length_cons, Nat.add_comm 1]
    rw [List.cons_append, quoted_cons hst hc.symm, atDocumentMark_quote, holdsMark, unquoted]
    cases hblank : isBlank c
    · cases hbreak : isBreak c
      · simpa using hread .text inSingle_text (st.flush ++ [c])
      · cases hmark : atDocumentMark (s ++ ['\''])
        · simpa using hread _ (hst.lineEnd hbreak) []
        · simp
    · simpa [isBreak_of_isBlank hblank] using hread _ (hst.blank hblank) []

theorem length_unquoted (hst : st.InSingle) (s : List Char) :
    (unquoted st s).length ≤ st.pending.length + s.length := by
  induction s generalizing st with
  | nil => exact hst.length_flush
  | cons c s ih =>
    rw [unquoted, List.length_cons]
    split_ifs with hblank hbreak
    · have hpending : (st.blank c).pending.length ≤ st.pending.length + 1 := by
        cases st <;> simp [QuotedState.blank, pending]
      have := ih (hst.blank hblank)
      omega
    · have hpending : (st.lineEnd c).pending.length ≤ st.pending.length + 1 := by
        cases st <;> simp [QuotedState.lineEnd, pending]
      have := ih (hst.lineEnd hbreak)
      omega
    · have hrest : (unquoted .text s).length ≤ 0 + s.length := ih inSingle_text
      have hflush := hst.length_flush
      simp only [List.length_append, List.length_cons]
      omega

theorem not_mem_unquoted (hst : st.InSingle) (s : List Char) : '\u0085' ∉ unquoted st s := by
  induction s generalizing st with
  | nil => exact hst.not_mem_flush
  | cons c s ih =>
    rw [unquoted]
    split_ifs with hblank hbreak
    · exact ih (hst.blank hblank)
    · exact ih (hst.lineEnd hbreak)
    · refine List.not_mem_append hst.not_mem_flush
        (List.not_mem_cons_of_ne_of_not_mem ?_ (ih inSingle_text))
      rintro rfl
      exact hbreak (by decide)

/-- It is read as a blank instead. -/
example : unquoted .text ['a', '\u0085', 'b'] = ['a', ' ', 'b'] := by
  decide

/-- With separators as the only line ends, a text comes back if no blank is beside one of them. -/
theorem unquoted_eq_iff (hst : st.InSingle) (hs : ∀ d ∈ st.pending ++ s, d ≠ '\n' ∧ d ≠ '\u0085') :
    unquoted st s = st.pending ++ s ↔ (st.pending ++ s).IsChain Apart := by
  have hflush := hst.flush_eq fun d hd => hs d (List.mem_append_left s hd)
  induction s generalizing st with
  | nil =>
    rw [unquoted, hflush, List.append_nil]
    exact iff_of_true rfl hst.isChain_pending
  | cons c s ih =>
    have hlong {st' : QuotedState} (hst' : st'.InSingle)
        (hp : st'.pending.length ≤ st.pending.length) : unquoted st' s ≠ st.pending ++ c :: s := by
      intro h
      have := length_unquoted hst' s
      simp only [h, List.length_append, List.length_cons] at this
      omega
    have hgrown {st' : QuotedState} (hst' : st'.InSingle) (hp : st'.pending = st.pending ++ [c]) :
        unquoted st' s = st.pending ++ c :: s ↔ (st.pending ++ c :: s).IsChain Apart := by
      have happend : st.pending ++ c :: s = st'.pending ++ s := by simp [hp]
      rw [happend] at hs ⊢
      exact ih hst' hs (hst'.flush_eq fun d hd => hs d (List.mem_append_left s hd))
    rw [unquoted]
    split_ifs with hblank hbreak
    · cases st with
      | text | blanks run => exact hgrown (hst.blank hblank) rfl
      | folded first more =>
        refine iff_of_false (hlong (hst.blank hblank) le_rfl)
          (not_isChain_append (by simp [pending]) ?_ s)
        exact fun a ha h => h.2 ⟨hst.isBreak a ha, hblank⟩
      | joined | digits => exact hst.elim
    · have hself := breakText_eq_self hbreak (hs c (by simp)).2
      cases st with
      | text => exact hgrown (hst.lineEnd hbreak) rfl
      | blanks run =>
        refine iff_of_false (hlong (hst.lineEnd hbreak) ?_) (not_isChain_append hst.1 ?_ s)
        · exact List.length_pos_of_ne_nil hst.1
        · exact fun a ha h => h.1 ⟨hst.2 a ha, hbreak⟩
      | folded first more =>
        exact hgrown (hst.lineEnd hbreak) (by simp [QuotedState.lineEnd, pending, hself])
      | joined | digits => exact hst.elim
    · have hmem : ∀ d ∈ s, d ≠ '\n' ∧ d ≠ '\u0085' := fun d hd => hs d (by simp [hd])
      have hrest : unquoted .text s = s ↔ s.IsChain Apart := ih inSingle_text hmem rfl
      have hjoint (a : Char) : Apart a c ∧ Apart c a := by simp [Apart, hblank, hbreak]
      rw [hflush, List.append_cancel_left_eq, List.cons.injEq, List.isChain_append,
        List.isChain_cons]
      simpa [hst.isChain_pending, hjoint] using hrest

/-- A text without line feeds comes back from single quotes only if it is one that nothing is folded
or dropped in. -/
theorem unquoted_text_eq_iff (hs : '\n' ∉ s) :
    unquoted .text s = s ↔ '\u0085' ∉ s ∧ s.IsChain Apart := by
  have hchain (hnext : '\u0085' ∉ s) : unquoted .text s = s ↔ s.IsChain Apart :=
    unquoted_eq_iff inSingle_text fun d hd =>
      ⟨ne_of_mem_of_not_mem hd hs, ne_of_mem_of_not_mem hd hnext⟩
  constructor
  · intro h
    have hnext : '\u0085' ∉ s := h ▸ not_mem_unquoted inSingle_text s
    exact ⟨hnext, (hchain hnext).1 h⟩
  · rintro ⟨hnext, hapart⟩
    exact (hchain hnext).2 hapart

end Scalar
end ApiScaffold.Yaml
