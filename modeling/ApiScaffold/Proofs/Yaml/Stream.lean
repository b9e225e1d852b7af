import ApiScaffold.Proofs.Yaml.Quoted
import ApiScaffold.Yaml.Token.Stream
import Mathlib.Data.List.TakeWhile

/-! The tokens of block mappings in which each line is a word for a key with a word or a text in
single quotes for its value. A line is read in three steps, for the key, the value indicator and the
value; a text in quotes may also be where reading ends. -/
namespace ApiScaffold.Yaml

open Text (CodePoint)

/-- The characters of words after the first. They stand for themselves in plain scalars. -/
def isWordCharacter (c : Char) : Bool :=
  c.isAlpha || c = '_' || c = '/' || c = '.'

def isWord : List Char → Bool
  | [] => false
  | c :: s => c.isAlpha && s.all isWordCharacter

theorem isWord_cons {w : List Char} (hw : isWord w = true) :
    ∃ c s, w = c :: s ∧ c.isAlpha = true ∧ ∀ d ∈ w, isWordCharacter d = true := by
  cases w with
  | nil => cases hw
  | cons c s =>
    rw [isWord, Bool.and_eq_true, List.all_eq_true] at hw
    refine ⟨c, s, rfl, hw.1, fun d hd => ?_⟩
    rcases List.mem_cons.1 hd with rfl | hd
    · simp [isWordCharacter, hw.1]
    · exact hw.2 d hd

def StartsWord (s : List Char) : Prop :=
  ∀ c, s.head? = some c → c.isAlpha = true

theorem startsWord_nil : StartsWord [] :=
  fun _ h => nomatch h

theorem startsWord_append {w : List Char} (hw : isWord w = true) (s : List Char) :
    StartsWord (w ++ s) := by
  obtain ⟨c, w, rfl, hc, -⟩ := isWord_cons hw
  rintro d ⟨rfl⟩
  exact hc

theorem ne_of_isWordCharacter {c d : Char} (hc : isWordCharacter c = true)
    (hd : isWordCharacter d = false) : c ≠ d := by
  rintro rfl
  rw [hc] at hd
  cases hd

theorem isBreak_of_isWordCharacter {c : Char} (hc : isWordCharacter c = true) :
    isBreak c = false := by
  have hne (d : Char) (hd : isWordCharacter d = false) : c ≠ d := ne_of_isWordCharacter hc hd
  simp [isBreak, hne '\n' (by decide), hne '\u0085' (by decide), hne '\u2028' (by decide),
    hne '\u2029' (by decide)]

theorem isAlpha_starts {c : Char} (hc : c.isAlpha = true) :
    c ≠ ' ' ∧ c ≠ '#' ∧ isBreak c = false := by
  have hword : isWordCharacter c = true := by simp [isWordCharacter, hc]
  exact ⟨ne_of_isWordCharacter hword (by decide), ne_of_isWordCharacter hword (by decide),
    isBreak_of_isWordCharacter hword⟩

theorem countWhile_append {p : Char → Bool} {w r : List Char} (hw : ∀ c ∈ w, p c = true)
    (hr : ∀ c, r.head? = some c → p c = false) : countWhile p (w ++ r) = w.length := by
  have hstop : r.takeWhile p = [] := by
    cases r with
    | nil => rfl
    | cons c r => simp [hr c rfl]
  rw [countWhile, List.takeWhile_append_of_pos hw, hstop, List.append_nil]

/-- The end of a line, with the spaces that the next one starts with. -/
def newLine (d : Nat) (rest : List Char) : List Char :=
  '\n' :: (List.replicate d ' ' ++ rest)

def wordEntry (key value rest : List Char) : List Char :=
  key ++ ':' :: ' ' :: (value ++ rest)

def quotedEntry (key value rest : List Char) : List Char :=
  key ++ ':' :: ' ' :: '\'' :: (value ++ '\'' :: rest)

def openEntry (key rest : List Char) : List Char :=
  key ++ ':' :: rest

namespace Cursor

theorem skip_add (m n : Nat) (cursor : Cursor) : cursor.skip (m + n) = (cursor.skip m).skip n := by
  induction m generalizing cursor with
  | zero => rw [Nat.zero_add]; rfl
  | succ m ih => rw [Nat.add_right_comm, skip, ih, skip]

theorem skip_append {w : List Char} (hw : ∀ c ∈ w, isBreak c = false ∧ c ≠ '\ufeff') (r : List Char)
    (index line column : Nat) : skip w.length ⟨w ++ r, index, line, column⟩ =
      ⟨r, index + w.length, line, column + w.length⟩ := by
  induction w generalizing index column with
  | nil => rfl
  | cons c w ih =>
    obtain ⟨hbreak, hmark⟩ := hw c List.mem_cons_self
    have hnext : next ⟨c :: (w ++ r), index, line, column⟩ = ⟨w ++ r, index + 1, line,
      column + 1⟩ := by
      simp [next, hbreak, hmark]
    rw [List.cons_append, List.length_cons, skip, hnext,
      ih fun d hd => hw d (List.mem_cons_of_mem c hd)]
    simp only [Cursor.mk.injEq, true_and]
    omega

theorem skip_lineEnd {cursor : Cursor} {d : Nat} {r : List Char}
    (hrest : cursor.rest = newLine d r) :
    ∃ index line, cursor.skip (1 + d) = ⟨r, index, line, d⟩ := by
  obtain ⟨rest, index, line, column⟩ := cursor
  obtain rfl : rest = newLine d r := hrest
  have hspaces : ∀ c ∈ List.replicate d ' ', isBreak c = false ∧ c ≠ '\ufeff' := by
    intro c hc
    obtain rfl := List.eq_of_mem_replicate hc
    decide
  have hskip := skip_append hspaces r (index + 1) (line + 1) 0
  rw [List.length_replicate, Nat.zero_add] at hskip
  exact ⟨_, _, by rw [Nat.add_comm, skip]; exact hskip⟩

end Cursor

namespace Scalar

theorem plainRun_word {w r : List Char} (hw : ∀ c ∈ w, isWordCharacter c = true)
    (hr : plainEnds false r = true) : plainRun false (w ++ r) = w.length := by
  induction w with
  | nil =>
    cases r with
    | nil => rfl
    | cons c r => rw [List.nil_append, plainRun, if_pos hr, List.length_nil]
  | cons c w ih =>
    have hc := hw c List.mem_cons_self
    have hends : plainEnds false (c :: (w ++ r)) = false := by
      have hne (d : Char) (hd : isWordCharacter d = false) : c ≠ d := ne_of_isWordCharacter hc hd
      rw [plainEnds]
      · simp [hne ' ' (by decide), hne '\t' (by decide), isBreak_of_isWordCharacter hc]
      · exact hne ':' (by decide)
    rw [List.cons_append, plainRun, hends, ih fun d hd => hw d (List.mem_cons_of_mem c hd)]
    rfl

theorem lineEnds_spaces {d : Nat} {r : List Char} (hr : StartsWord r) :
    lineEnds (List.replicate d ' ' ++ r) = ([], d, false) := by
  induction d with
  | zero =>
    cases r with
    | nil => rfl
    | cons c r =>
      obtain ⟨hspace, -, hbreak⟩ := isAlpha_starts (hr c rfl)
      simp [lineEnds, hspace, hbreak]
  | succ d ih => simp [List.replicate_succ, lineEnds, ih]

theorem plainSpace_lineEnd {d : Nat} {r : List Char} (hr : StartsWord r) :
    plainSpace (newLine d r) = ([' '], 1 + d, true) := by
  have hmark : atDocumentMark (List.replicate d ' ' ++ r) = false := by
    cases d with
    | zero =>
      cases r with
      | nil => rfl
      | cons c r =>
        have hc := hr c rfl
        rw [List.replicate_zero, List.nil_append, atDocumentMark]
        · rintro rest ⟨rfl⟩
          cases hc
        · rintro rest ⟨rfl⟩
          cases hc
    | succ d => simp [List.replicate_succ, atDocumentMark]
  simp [newLine, plainSpace, isBreak, hmark, lineEnds_spaces hr, fold, breakText]

end Scalar

namespace Lexer
open Scalar

variable {l l' : Lexer} {w r : List Char} {cursor : Cursor} {column : Nat} {indent : Int}
  {outer : List Int} {slots : Array Slot}

theorem rest_skip (l : Lexer) (n : Nat) : (l.skip n).rest = l.rest.drop n :=
  Cursor.rest_skip n l.cursor

theorem toNextToken_spaces {d : Nat} (hl : l.rest = List.replicate d ' ' ++ r)
    (hr : ∀ c, r.head? = some c → c ≠ ' ' ∧ c ≠ '#' ∧ isBreak c = false) (bound : Nat) :
    toNextToken (bound + 1) l = l.skip d := by
  have hcount : countWhile (· = ' ') l.rest = d := by
    rw [hl, countWhile_append (by simp) fun c hc => by simp [(hr c hc).1], List.length_replicate]
  have hskip : l.cursor.skipWhile (· = ' ') = l.cursor.skip d := congrArg (l.cursor.skip ·) hcount
  have hrest : (l.skip d).rest = r := by
    rw [rest_skip, hl, List.drop_left' (by simp)]
  have hhead : ({ l with cursor := l.cursor.skip d } : Lexer).rest.head? = r.head? :=
    congrArg List.head? hrest
  cases hc : r.head? with
  | none => simp [toNextToken, hskip, hhead, hc, skip]
  | some c => simp [toNextToken, hskip, hhead, hc, hr c hc, skip]

theorem toNextToken_of_head (h : ∀ c, l.rest.head? = some c → c ≠ ' ' ∧ c ≠ '#' ∧ isBreak c = false)
    (bound : Nat) : toNextToken (bound + 1) l = l :=
  toNextToken_spaces (d := 0) rfl h bound

/-- Behind the end of a line keys are allowed. -/
theorem toNextToken_lineEnd (hl : l.rest = '\n' :: r) (hflow : l.flow = 0) (bound : Nat) :
    toNextToken (bound + 1) l = toNextToken bound { l.skip 1 with keyAllowed := true } := by
  obtain ⟨⟨rest, index, line, column⟩, flow, indent, outer, keyAllowed, marks, slots⟩ := l
  obtain rfl : rest = '\n' :: r := hl
  obtain rfl : flow = 0 := hflow
  cases keyAllowed <;> rfl

theorem unwind_eq_self {column : Int} (h : l.indent ≤ column) : l.unwind column = l := by
  unfold unwind
  split
  · rfl
  · unfold closeFrom
    split
    · rfl
    · rw [if_neg (by omega)]

/-- Between the lines of a block mapping, where a key may start. -/
def inFront (cursor : Cursor) (indent : Int) (outer : List Int) (slots : Array Slot) : Lexer :=
  { cursor, indent, outer, slots }

def behind (cursor : Cursor) (indent : Int) (outer : List Int) (slots : Array Slot) : Lexer :=
  { cursor, indent, outer, keyAllowed := false, slots }

/-- Behind a word that may be a key, or has to be one. -/
def onKey (required : Bool) (cursor start : Cursor) (indent : Int) (outer : List Int)
    (slots : Array Slot) : Lexer :=
  { cursor, indent, outer, keyAllowed := false,
    marks := [⟨0, slots.size - 1, required, start⟩], slots }

theorem dropStale_of_nil (h : l.marks = []) : l.dropStale = .ok l := by
  obtain ⟨c, f, i, o, k, m, s⟩ := l
  obtain rfl : m = [] := h
  rfl

theorem token_of_isWord (hl : l.rest = w ++ r) (hw : isWord w = true) : l.token = l.plain := by
  obtain ⟨c, s, rfl, hc, -⟩ := isWord_cons hw
  have hne (d : Char) (hd : d.isAlpha = false) : c ≠ d := by
    rintro rfl
    rw [hc] at hd
    cases hd
  have hlist (ds : List Char) (hds : ds.any Char.isAlpha = false) : ds.contains c = false := by
    rw [List.contains_eq_mem, decide_eq_false_iff_not]
    exact fun hmem => List.any_eq_false.1 hds c hmem hc
  have hstarts : l.startsPlain l.rest = true := by
    have hbreak : isBreak c = false := isBreak_of_isWordCharacter (by simp [isWordCharacter, hc])
    rw [hl, List.cons_append, startsPlain, hlist _ (by decide), hbreak]
    simp [hne ' ' (by decide), hne '\t' (by decide)]
  have hhead : l.rest.head? = some c := by rw [hl]; rfl
  unfold token
  simp only [hhead, hstarts]
  split
  case h_12 =>
    rename_i d h
    obtain rfl := Option.some.inj h
    simp [hne '-' (by decide), hne '.' (by decide), hne '?' (by decide), hne ':' (by decide),
      hne '|' (by decide), hne '>' (by decide)]
  case h_13 h => cases h
  all_goals exact absurd (Option.some.inj ‹_›) (hne _ (by decide))

/-- The next token, where no line ends and no collection is closed in front of it. -/
theorem fetch_eq (h : toNextToken (l.rest.length + 1) l = l') (hstale : l'.dropStale = .ok l')
    (hindent : l'.indent ≤ l'.cursor.column) (hne : l'.rest ≠ []) :
    fetch false l = (·, false) <$> l'.token := by
  have hempty : l'.rest.isEmpty = false := List.isEmpty_eq_false_iff.2 hne
  unfold fetch
  simp only [h, hstale, hempty, unwind_eq_self hindent, bind, Except.bind, pure, Except.pure]
  cases l'.token <;> rfl

/-- A word is a plain scalar, which ends where its line does or in front of a value. -/
theorem plainFrom_word (hflow : l.flow = 0) (hl : l.rest = w ++ r) (hw : isWord w = true)
    (hr : plainEnds false r = true) {space : List Char} {n : Nat} {broken : Bool}
    (hspace : plainSpace r = (space, n, broken))
    (hend : space = [] ∨ (((l.cursor.skip w.length).skip n).column : Int) < l.indent + 1) :
    l.plainFrom [] [] l.rest.length =
      ({ l with cursor := (l.cursor.skip w.length).skip n, keyAllowed := broken }, w) := by
  obtain ⟨c, s, hcons, hc, hall⟩ := isWord_cons hw
  obtain ⟨bound, hbound⟩ : ∃ bound, l.rest.length = bound + 1 := ⟨_, by rw [hl, hcons]; rfl⟩
  have hhead : l.rest.head? ≠ some '#' := by
    rw [hl, hcons]
    rintro ⟨rfl⟩
    cases hc
  have hrun : plainRun false l.rest = w.length := by rw [hl, plainRun_word hall hr]
  have hlength : w.length ≠ 0 := by simp [hcons]
  have hrest : (l.skip w.length).rest = r := by rw [rest_skip, hl, List.drop_left]
  have hrest' : ({ l.skip w.length with keyAllowed := false } : Lexer).rest = r := hrest
  have hends : (space.isEmpty ||
    ({ (l.skip w.length).skip n with keyAllowed := broken } : Lexer).rest.head? = some '#' ||
      (l.flow = 0 && (((l.cursor.skip w.length).skip n).column : Int) < l.indent + 1)) = true := by
    rcases hend with h | h
    · simp [h]
    · simp [h, hflow]
  have htake : l.rest.take w.length = w := by rw [hl, List.take_left]
  have hflow' : decide (l.flow ≠ 0) = false := by simp [hflow]
  rw [hbound, plainFrom]
  simp only [if_neg hhead, hflow', hrun, if_neg hlength, hrest', hspace, htake]
  exact if_pos hends

theorem plain_eq {l'' : Lexer} {text : List Char} (hmark : l.markKey = .ok l')
    (hread : l'.plainFrom [] [] l'.rest.length = (l'', text)) :
    l.plain = .ok (l''.push (.scalar (CodePoint.ofChars text) true)) := by
  rw [plain, hmark]
  simp only [bind, Except.bind, hread]
  rfl

theorem fetch_key (h : toNextToken (l.rest.length + 1) l = inFront cursor indent outer slots)
    (hrest : cursor.rest = w ++ ':' :: r) (hw : isWord w = true) (hr : atBlank r = true)
    (hindent : indent ≤ cursor.column) : ∃ required, fetch false l = .ok
      (onKey required (cursor.skip w.length) cursor indent outer
        (slots.push { token := .scalar (CodePoint.ofChars w) true }), false) := by
  have hfront : (inFront cursor indent outer slots).rest = w ++ ':' :: r := hrest
  have hne : (inFront cursor indent outer slots).rest ≠ [] := by simp [hfront]
  have hspace : plainSpace (':' :: r) = ([], 0, false) := by simp [plainSpace, isBreak]
  have hends : plainEnds false (':' :: r) = true := by simp [plainEnds, hr]
  obtain ⟨required, hmark⟩ : ∃ required, (inFront cursor indent outer slots).markKey =
      .ok { inFront cursor indent outer slots with marks := [⟨0, slots.size, required, cursor⟩] } :=
    ⟨_, rfl⟩
  have hread := plainFrom_word (l := { inFront cursor indent outer slots with
    marks := [⟨0, slots.size, required, cursor⟩] }) rfl hfront hw hends hspace (.inl rfl)
  refine ⟨required, ?_⟩
  rw [fetch_eq h (dropStale_of_nil rfl) hindent hne, token_of_isWord hfront hw,
    plain_eq hmark hread]
  simp [onKey, inFront, push, Cursor.skip, Functor.map, Except.map]

theorem modify_push {α : Type} (xs : Array α) (a : α) (f : α → α) :
    (xs.push a).modify xs.size f = xs.push (f a) := by
  apply Array.ext_getElem?
  intro i
  grind

/-- A value indicator behind a word on the same line, which becomes a key, in a mapping opened there
if it stands in more than the one around. -/
theorem fetch_indicator {start : Cursor} {t : Token} (required : Bool)
    (hrest : cursor.rest = ':' :: r) (hr : atBlank r = true)
    (hline : start.line = cursor.line) (hindex : cursor.index ≤ start.index + keyLimit)
    (hstart : indent ≤ start.column) (hcolumn : start.column ≤ cursor.column) :
    fetch false (onKey required cursor start indent outer (slots.push { token := t })) =
      .ok (behind (cursor.skip 1) start.column
        (if indent < start.column then indent :: outer else outer)
        ((slots.push ⟨if indent < start.column then [.blockMapping, .key] else [.key], t⟩).push
          { token := .value }), false) := by
  generalize hl : onKey required cursor start indent outer (slots.push { token := t }) = l
  have hrest' : l.rest = ':' :: r := hl ▸ hrest
  have hnext (bound : Nat) : toNextToken (bound + 1) l = l := by
    refine toNextToken_of_head (fun c hc => ?_) bound
    obtain rfl : ':' = c := by simpa [hrest'] using hc
    decide
  have hstale : l.dropStale = .ok l := by
    have hnear : ¬ keyLimit < cursor.index - start.index := by omega
    subst hl
    simp [dropStale, onKey, hline, hnear]
  have hindent : l.indent ≤ l.cursor.column := by
    subst hl
    simp only [onKey]
    omega
  have htoken : l.token = l.value := by simp [token, hrest', hr]
  rw [fetch_eq (hnext _) hstale hindent (by simp [hrest']), htoken]
  subst hl
  rcases Int.lt_or_eq_of_le hstart with h | h
  · simp [value, onKey, indentTo, modify_push, behind, skip, push, h, pure, Except.pure]
  · simp [value, onKey, indentTo, modify_push, behind, skip, push, h, pure, Except.pure]

theorem fetch_value {c : Char} (hrest : cursor.rest = ' ' :: c :: r)
    (hc : c ≠ ' ' ∧ c ≠ '#' ∧ isBreak c = false)
    (hcolumn : indent ≤ cursor.column) : fetch false (behind cursor indent outer slots) =
      (·, false) <$> (behind (cursor.skip 1) indent outer slots).token := by
  obtain ⟨rest, index, line, column⟩ := cursor
  obtain rfl : rest = ' ' :: c :: r := hrest
  refine fetch_eq (toNextToken_spaces (d := 1) (r := c :: r) rfl (fun d hd => ?_) _)
    (dropStale_of_nil rfl) ?_ ?_
  · obtain rfl : c = d := by simpa using hd
    exact hc
  · change indent ≤ (column : Int) at hcolumn
    change indent ≤ ((column + 1 : Nat) : Int)
    omega
  · simp [behind, Lexer.rest, Cursor.rest_skip]

theorem fetch_word {d : Nat} (hrest : cursor.rest = ' ' :: (w ++ newLine d r))
    (hw : isWord w = true) (hr : StartsWord r) (hd : (d : Int) ≤ indent)
    (hcolumn : indent ≤ cursor.column) :
    ∃ index line, fetch false (behind cursor indent outer slots) =
      .ok (inFront ⟨r, index, line, d⟩ indent outer
        (slots.push { token := .scalar (CodePoint.ofChars w) true }), false) := by
  obtain ⟨c, s, hcons, hc, -⟩ := isWord_cons hw
  have hvalue : (behind (cursor.skip 1) indent outer slots).rest = w ++ newLine d r := by
    simp [behind, Lexer.rest, Cursor.rest_skip, hrest]
  have hafter : ((cursor.skip 1).skip w.length).rest = newLine d r := by
    simp [Cursor.rest_skip, hrest]
  obtain ⟨index, line, hline⟩ := Cursor.skip_lineEnd hafter
  have hshallow : ((((cursor.skip 1).skip w.length).skip (1 + d)).column : Int) < indent + 1 := by
    rw [hline]
    exact Int.lt_add_one_of_le hd
  have hread := plainFrom_word rfl hvalue hw (by simp [newLine, plainEnds, isBreak])
    (plainSpace_lineEnd hr) (.inr hshallow)
  refine ⟨index, line, ?_⟩
  rw [fetch_value (by rw [hrest, hcons]; rfl) (isAlpha_starts hc) hcolumn,
    token_of_isWord hvalue hw, plain_eq rfl hread]
  change Except.ok
    (push (inFront (((cursor.skip 1).skip w.length).skip (1 + d)) indent outer slots) _, false) = _
  rw [hline]
  rfl

theorem fetch_quoted {s : List Char} (hrest : cursor.rest = ' ' :: '\'' :: (s ++ '\'' :: r))
    (hs : '\'' ∉ s) (hr : r.head? ≠ some '\'') (hcolumn : indent ≤ cursor.column) :
    ∃ after : Cursor, after.rest = r ∧
      fetch false (behind cursor indent outer slots) =
        if holdsMark s then .error .malformed
        else
          .ok (behind after indent outer (slots.push
            { token := .scalar (CodePoint.ofChars (unquoted .text s)) false }), false) := by
  have hvalue : (behind (cursor.skip 1) indent outer slots).rest = '\'' :: (s ++ '\'' :: r) := by
    simp [behind, Lexer.rest, Cursor.rest_skip, hrest]
  have hread := quoted_eq QuotedState.inSingle_text hs hr
  have hmark : (behind (cursor.skip 1) indent outer slots).markKey =
    .ok (behind (cursor.skip 1) indent outer slots) := rfl
  refine ⟨(cursor.skip 1).skip (1 + (s.length + 1)), ?_, ?_⟩
  · rw [Cursor.rest_skip, Cursor.rest_skip, hrest]
    have hlength : 1 + (s.length + 1) = s.length + 1 + 1 := Nat.add_comm _ _
    rw [List.drop_succ_cons, List.drop_zero, hlength, List.drop_succ_cons, ← List.drop_drop,
      List.drop_left]
    rfl
  · rw [fetch_value hrest (by decide) hcolumn]
    simp only [token, hvalue, List.head?_cons, marked, hmark, bind, Except.bind,
      List.drop_succ_cons, List.drop_zero, hread]
    cases holdsMark s <;> rfl

/-- The next token stands at a column, and a key may start there. -/
def Awaits (l : Lexer) (rest : List Char) (column : Nat) (indent : Int) (outer : List Int)
    (slots : Array Slot) : Prop :=
  ∃ index line,
    toNextToken (l.rest.length + 1) l = inFront ⟨rest, index, line, column⟩ indent outer slots

def Reads (count : Nat) (l l' : Lexer) : Prop :=
  ∀ bound, tokens none (bound + count) l = tokens none bound l'

theorem Reads.trans {m n : Nat} {l'' : Lexer} (h : Reads m l l') (h' : Reads n l' l'') :
    Reads (n + m) l l'' :=
  fun bound => by rw [← Nat.add_assoc, h, h']

theorem reads_of_fetch (h : fetch false l = .ok (l', false)) : Reads 1 l l' := by
  intro bound
  rw [tokens, Option.isSome_none, h]

theorem settled_of_nil (h : l.marks = []) : l.settled = written l.slots.toList := by
  have hsize : l.slots.toList.length ≤ l.slots.size := Array.length_toList.le
  rw [settled, dropStale_of_nil h]
  simp only [h, List.foldl_nil, List.take_of_length_le hsize]

def withKey (slots : Array Slot) (indent : Int) (column : Nat) (w : List Char) : Array Slot :=
  (slots.push ⟨if indent < column then [.blockMapping, .key] else [.key],
    .scalar (CodePoint.ofChars w) true⟩).push { token := .value }

@[simp] theorem toList_withKey (slots : Array Slot) (indent : Int) (column : Nat) (w : List Char) :
    (withKey slots indent column w).toList = slots.toList ++
      [⟨if indent < column then [.blockMapping, .key] else [.key],
        .scalar (CodePoint.ofChars w) true⟩, { token := .value }] := by
  simp [withKey]

@[simp] theorem written_append (slots slots' : List Slot) :
    written (slots ++ slots') = written slots ++ written slots' :=
  List.flatMap_append

@[simp] theorem written_cons (s : Slot) (slots : List Slot) :
    written (s :: slots) = s.before ++ s.token :: written slots := by
  simp [written]

@[simp] theorem written_nil : written [] = [] := rfl

/-- The collections around the one that a key stands in. -/
def around (indent : Int) (column : Nat) (outer : List Int) : List Int :=
  if indent < column then indent :: outer else outer

theorem reads_key (h : Awaits l (w ++ ':' :: r) column indent outer slots) (hw : isWord w = true)
    (hr : atBlank r = true) (hlength : w.length ≤ keyLimit) (hindent : indent ≤ column) :
    ∃ cursor : Cursor, cursor.rest = r ∧ (column : Int) ≤ cursor.column ∧ Reads 2 l
      (behind cursor column (around indent column outer) (withKey slots indent column w)) := by
  obtain ⟨index, line, h⟩ := h
  obtain ⟨c, s, -, -, hall⟩ := isWord_cons hw
  have hskip := Cursor.skip_append (fun c hc => ⟨isBreak_of_isWordCharacter (hall c hc),
    ne_of_isWordCharacter (hall c hc) (by decide)⟩) (':' :: r) index line column
  obtain ⟨required, hkey⟩ := fetch_key h rfl hw hr hindent
  rw [hskip] at hkey
  refine ⟨_, rfl, ?_,
    (reads_of_fetch hkey).trans (reads_of_fetch (fetch_indicator required rfl hr rfl
    (Nat.add_le_add_left hlength index) hindent (Nat.le_add_right column w.length)))⟩
  change (column : Int) ≤ ((column + w.length + 1 : Nat) : Int)
  omega

theorem awaits_inFront {d : Nat} (index line : Nat) (hr : StartsWord r) :
    Awaits (inFront ⟨r, index, line, d⟩ indent outer slots) r d indent outer slots := by
  refine ⟨index, line, toNextToken_of_head (fun c hc => ?_) _⟩
  exact isAlpha_starts (hr c hc)

theorem toNextToken_newLine {d : Nat} (hl : l.rest = newLine d r)
    (hflow : l.flow = 0) (hmarks : l.marks = []) (hr : StartsWord r) : ∃ index line, ∀ bound,
      toNextToken (bound + 2) l = inFront ⟨r, index, line, d⟩ l.indent l.outer l.slots := by
  obtain ⟨index, line, hskip⟩ := Cursor.skip_lineEnd hl
  have hnext : ({ l.skip 1 with keyAllowed := true } : Lexer).rest = List.replicate d ' ' ++ r := by
    change (l.skip 1).rest = _
    rw [rest_skip, hl]
    rfl
  refine ⟨index, line, fun bound => ?_⟩
  rw [toNextToken_lineEnd hl hflow,
    toNextToken_spaces hnext fun c hc => isAlpha_starts (hr c hc), ← hskip]
  simp [skip, inFront, Cursor.skip_add, hflow, hmarks]

/-- Where a line ends the reader waits for the next one, which holds a key or is the end of the
text. -/
theorem awaits_newLine {d : Nat} (hl : l.rest = newLine d r) (hflow : l.flow = 0)
    (hmarks : l.marks = []) (hr : StartsWord r) : Awaits l r d l.indent l.outer l.slots := by
  obtain ⟨index, line, hnext⟩ := toNextToken_newLine hl hflow hmarks hr
  refine ⟨index, line, ?_⟩
  rw [hl, newLine, List.length_cons, hnext]

/-- A comment is passed over. -/
theorem toNextToken_comment {s : List Char} (hl : l.rest = '#' :: (s ++ '\n' :: r))
    (hflow : l.flow = 0) (hs : ∀ c ∈ s, isBreak c = false) (bound : Nat) :
    toNextToken (bound + 1) l = toNextToken (bound + 1) (l.skip (s.length + 1)) := by
  have hrest : (l.skip (s.length + 1)).rest = '\n' :: r := by
    rw [rest_skip, hl, List.drop_succ_cons, List.drop_left]
  have hcount : countWhile (!isBreak ·) l.rest = ('#' :: s).length := by
    rw [hl, ← List.cons_append]
    refine countWhile_append (fun c hc => ?_) (fun c hc => ?_)
    · rcases List.mem_cons.1 hc with rfl | hc
      · decide
      · simp [hs c hc]
    · obtain rfl : '\n' = c := by simpa using hc
      decide
  have hcomment : l.cursor.skipWhile (!isBreak ·) = l.cursor.skip (s.length + 1) :=
    congrArg (l.cursor.skip ·) hcount
  have hspaces : l.cursor.skipWhile (· = ' ') = l.cursor :=
    congrArg (l.cursor.skip ·) (by simp [hl, countWhile] : countWhile (· = ' ') l.rest = 0)
  rw [toNextToken_lineEnd hrest hflow, toNextToken]
  obtain ⟨cursor, flow, indent, outer, keyAllowed, marks, slots⟩ := l
  simp only [Lexer.rest, Lexer.skip] at hl hrest hcomment hspaces hflow ⊢
  simp only [hspaces, hl, List.head?_cons, if_true, hcomment, hrest, hflow]
  cases keyAllowed <;> rfl

theorem awaits_comment {s : List Char} {d : Nat} (hs : ∀ c ∈ s, isBreak c = false)
    (hr : StartsWord r) : Awaits (inFront { rest := '#' :: (s ++ newLine d r) } indent outer slots)
    r d indent outer slots := by
  have hrest : ((inFront { rest := '#' :: (s ++ newLine d r) } indent outer slots).skip
    (s.length + 1)).rest = newLine d r := by
    rw [rest_skip]
    change List.drop (s.length + 1) ('#' :: (s ++ newLine d r)) = newLine d r
    rw [List.drop_succ_cons, List.drop_left]
  obtain ⟨index, line, hnext⟩ := toNextToken_newLine hrest rfl rfl hr
  refine ⟨index, line, ?_⟩
  rw [toNextToken_comment rfl rfl hs]
  exact hnext _

theorem reads_wordEntry {v : List Char} {d : Nat}
    (h : Awaits l (wordEntry w v (newLine d r)) column indent outer slots)
    (hw : isWord w = true) (hv : isWord v = true) (hlength : w.length ≤ keyLimit)
    (hindent : indent ≤ column) (hd : d ≤ column) (hr : StartsWord r) :
    ∃ l', Reads 3 l l' ∧ Awaits l' r d column (around indent column outer)
      ((withKey slots indent column w).push { token := .scalar (CodePoint.ofChars v) true }) := by
  obtain ⟨cursor, hrest, hcolumn, hkey⟩ := reads_key h hw rfl hlength hindent
  obtain ⟨index, line, hword⟩ := fetch_word hrest hv hr (by omega) hcolumn
  exact ⟨_, hkey.trans (reads_of_fetch hword), awaits_inFront index line hr⟩

/-- An entry with a text in single quotes for its value, in which there is no mark between
documents. -/
theorem reads_quotedEntry {v : List Char} {d : Nat}
    (h : Awaits l (quotedEntry w v (newLine d r)) column indent outer slots)
    (hw : isWord w = true) (hv : '\'' ∉ v) (hlength : w.length ≤ keyLimit)
    (hindent : indent ≤ column) (hr : StartsWord r) (hmark : holdsMark v = false) :
    ∃ l', Reads 3 l l' ∧ Awaits l' r d column (around indent column outer)
      ((withKey slots indent column w).push
        { token := .scalar (CodePoint.ofChars (unquoted .text v)) false }) := by
  obtain ⟨cursor, hrest, hcolumn, hkey⟩ := reads_key h hw rfl hlength hindent
  obtain ⟨after, hafter, hquoted⟩ := fetch_quoted hrest hv (by simp [newLine]) hcolumn
  rw [hmark] at hquoted
  exact ⟨_, hkey.trans (reads_of_fetch hquoted), awaits_newLine hafter rfl rfl hr⟩

/-- Where there is one, reading ends. -/
theorem tokens_quotedEntry {v : List Char} {d : Nat}
    (h : Awaits l (quotedEntry w v (newLine d r)) column indent outer slots) (hw : isWord w = true)
    (hv : '\'' ∉ v) (hlength : w.length ≤ keyLimit) (hindent : indent ≤ column)
    (hmark : holdsMark v = true) (bound : Nat) : tokens none (bound + 3) l =
    (written (withKey slots indent column w).toList, some .malformed) := by
  obtain ⟨cursor, hrest, hcolumn, hkey⟩ := reads_key h hw rfl hlength hindent
  obtain ⟨after, -, hquoted⟩ := fetch_quoted hrest hv (by simp [newLine]) hcolumn
  rw [hmark, if_pos rfl] at hquoted
  have hsum : bound + 3 = bound + 1 + 2 := rfl
  rw [hsum, hkey, tokens, Option.isSome_none, hquoted]
  exact congrArg (·, some Fault.malformed) (settled_of_nil rfl)

theorem reads_openEntry {d : Nat}
    (h : Awaits l (openEntry w (newLine d r)) column indent outer slots)
    (hw : isWord w = true) (hlength : w.length ≤ keyLimit)
    (hindent : indent ≤ column) (hr : StartsWord r) : ∃ l', Reads 2 l l' ∧
      Awaits l' r d column (around indent column outer) (withKey slots indent column w) := by
  obtain ⟨cursor, hrest, hcolumn, hkey⟩ := reads_key h hw rfl hlength hindent
  exact ⟨_, hkey, awaits_newLine hrest rfl rfl hr⟩

theorem tokens_end (h : Awaits l [] 0 indent [0, -1] slots) (hindent : 0 < indent) (bound : Nat) :
    tokens none (bound + 1) l = (written slots.toList ++ [.blockEnd, .blockEnd], none) := by
  obtain ⟨index, line, h⟩ := h
  have hfetch : fetch false l = .ok (inFront ⟨[], index, line, 0⟩ (-1) []
    ((slots.push { token := .blockEnd }).push { token := .blockEnd }), true) := by
    unfold fetch
    simp only [h, dropStale_of_nil (l := inFront _ _ _ _) rfl, bind, Except.bind, pure, Except.pure]
    simp [inFront, unwind, closeFrom, hindent, push, dropMark, Lexer.rest]
  rw [tokens, Option.isSome_none, hfetch]
  simp [inFront, written]

end Lexer
end ApiScaffold.Yaml
