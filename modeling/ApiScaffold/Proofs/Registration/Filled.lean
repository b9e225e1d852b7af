import ApiScaffold.Proofs.Registration.Entry
import ApiScaffold.Proofs.Registration.FieldValue

/-! Templates part by part. A template is read as characters, doubled braces and fields, each
of which is found again between its braces, and what it is filled in to is made of the texts
of these parts. -/
namespace ApiScaffold.EntryTemplate
variable {name t e body s taken : List Char} {depth : Nat} {f : Field} {c : Char} {ps : List Piece}

def Field.front (f : Field) : List Char :=
  f.path ++ f.conversion.elim [] fun letter => ['!', letter]

/-- What stands between the braces of a field. Braces among the marks come in pairs. -/
structure Field.Spells (f : Field) (body : List Char) : Prop where
  spelt : f.marks = [] ∧ body = f.front ∨ body = f.front ++ ':' :: f.marks
  balanced : f.marks.count '{' = f.marks.count '}'

def Place.soFar : Place → List Char
  | .text => []
  | .path read _ => read
  | .conversion read => read ++ ['!']
  | .converted read letter => read ++ ['!', letter]
  | .marks way letter _ read => Field.front ⟨way, letter, []⟩ ++ ':' :: read

/-- A reader stands in a field, within as many braces as it has opened among the marks. -/
def Place.InField : Place → Prop
  | .text => False
  | .marks _ _ depth read => read.count '{' = read.count '}' + depth
  | _ => True

/-- A field of which a part has been read comes to its end in the text behind it, or is broken. -/
inductive FieldEnds (taken s : List Char) : List Piece → Prop
  | broken (defect : Defect) : FieldEnds taken s [.broken defect]
  | closed {body t : List Char} {f : Field} (hs : s = body ++ '}' :: t)
    (h : f.Spells (taken ++ body)) : FieldEnds taken s (.field f :: pieces t)

theorem FieldEnds.step (h : FieldEnds (taken ++ [c]) s ps) : FieldEnds taken (c :: s) ps := by
  cases h with
  | broken defect => exact .broken defect
  | @closed body t f hs hf =>
    rw [List.append_assoc, List.singleton_append] at hf
    exact .closed (by rw [hs, List.cons_append]) hf

theorem FieldEnds.close (h : f.Spells taken) :
    FieldEnds taken ('}' :: t) (.field f :: pieces t) := by
  rw [← List.append_nil taken] at h
  exact .closed rfl h

theorem FieldEnds.mark {path marks : List Char} {conversion : Option Char}
    (h : FieldEnds (Place.marks path conversion depth (marks ++ [c])).soFar s ps) (depth' : Nat) :
    FieldEnds (Place.marks path conversion depth' marks).soFar (c :: s) ps := by
  refine .step ?_
  simpa [Place.soFar] using h

/-- A reader in a field goes on to its end or to something broken. -/
theorem fieldEnds_piecesFrom {place : Place} (h : place.InField) (s : List Char) :
    FieldEnds place.soFar s (piecesFrom place s) := by
  fun_induction piecesFrom place s with
  | case1 | case2 | case3 | case4 | case5 | case6 | case7 => exact h.elim
  | case8 | case10 | case15 | case17 | case20 | case21 => exact .broken _
  | case9 read c rest ih | case14 read c rest _ _ _ _ ih => exact (ih trivial).step
  | case11 read rest => exact .close ⟨.inl ⟨rfl, (List.append_nil read).symm⟩, rfl⟩
  | case12 read rest ih => exact (ih trivial).step
  | case13 read rest ih =>
    have hends := ih rfl
    simp only [Place.soFar, Field.front, Option.elim_none, List.append_nil] at hends
    exact hends.step
  | case16 path letter rest ih =>
    refine .step ?_
    simpa [Place.soFar] using ih trivial
  | case18 path letter rest => exact .close ⟨.inl ⟨rfl, rfl⟩, rfl⟩
  | case19 path letter rest ih => exact (ih rfl).step
  | case22 path conversion read rest => exact .close ⟨.inr rfl, h⟩
  | case23 path conversion depth read rest ih =>
    refine .mark (ih ?_) _
    simp only [Place.InField, List.count_append, List.count_singleton] at h ⊢
    simp
    omega
  | case24 path conversion depth read rest ih =>
    refine .mark (ih ?_) _
    simp only [Place.InField, List.count_append, List.count_singleton] at h ⊢
    simp
    omega
  | case25 path conversion depth read c rest hclose hclose' hopen ih =>
    have hc : c ≠ '}' := by
      rintro rfl
      cases depth with
      | zero => exact hclose rfl rfl
      | succ depth => exact hclose' depth rfl rfl
    refine .mark (ih ?_) _
    simp only [Place.InField, List.count_append, List.count_singleton] at h ⊢
    have hc' : c ≠ '{' := hopen
    simp [hc, hc', h]

/-- A brace that is not doubled opens a field. -/
theorem pieces_opening (h : t.head? ≠ some '{') : (∃ defect, pieces ('{' :: t) = [.broken defect]) ∨
    ∃ body f t', t = body ++ '}' :: t' ∧ pieces ('{' :: t) = .field f :: pieces t' ∧
      f.Spells body := by
  cases t with
  | nil => exact .inl ⟨_, rfl⟩
  | cons c t =>
    have hc : c ≠ '{' := fun he => h (congrArg some he)
    have hpieces : pieces ('{' :: c :: t) = piecesFrom (.path [] false) (c :: t) := by
      unfold pieces
      rw [piecesFrom.eq_def]
      simp [hc]
    have hends := @fieldEnds_piecesFrom (.path [] false) trivial (c :: t)
    rw [← hpieces] at hends
    generalize pieces ('{' :: c :: t) = ps at hends ⊢
    cases hends with
    | broken defect => exact .inl ⟨defect, rfl⟩
    | closed hs hf => exact .inr ⟨_, _, _, hs, rfl, hf⟩

/-- A brace that is not doubled closes nothing. -/
theorem pieces_closing (h : t.head? ≠ some '}') : pieces ('}' :: t) = [.broken .loneClosing] := by
  unfold pieces
  rw [piecesFrom.eq_def]
  cases t with
  | nil => rfl
  | cons c t =>
    have hc : c ≠ '}' := fun he => h (congrArg some he)
    simp [hc]

inductive Reads : List Char → List Piece → Prop
  | nil : Reads [] []
  | broken (t : List Char) (defect : Defect) : Reads t [.broken defect]
  | char {c : Char} {t : List Char} {ps : List Piece} (hc : c ≠ '{' ∧ c ≠ '}') (h : Reads t ps) :
    Reads (c :: t) (.char c :: ps)
  | doubled {c : Char} {t : List Char} {ps : List Piece} (hc : c = '{' ∨ c = '}') (h : Reads t ps) :
    Reads (c :: c :: t) (.char c :: ps)
  | field {f : Field} {body t : List Char} {ps : List Piece} (hf : f.Spells body) (hopen :
    body.head? ≠ some '{') (h : Reads t ps) : Reads ('{' :: (body ++ '}' :: t)) (.field f :: ps)

theorem reads_pieces (t : List Char) : Reads t (pieces t) := by
  induction t using (measure List.length).wf.induction with
  | _ t ih =>
    replace ih : ∀ t', t'.length < t.length → Reads t' (pieces t') := ih
    cases t with
    | nil => exact .nil
    | cons c t =>
      by_cases hdoubled : t.head? = some c ∧ (c = '{' ∨ c = '}')
      · obtain ⟨hhead, hc⟩ := hdoubled
        obtain ⟨t, rfl⟩ := List.head?_eq_some_iff.1 hhead
        rw [pieces_doubled hc]
        exact .doubled hc (ih t (by rw [List.length_cons, List.length_cons]; omega))
      · by_cases hopening : c = '{'
        · subst hopening
          have hhead : t.head? ≠ some '{' := fun he => hdoubled ⟨he, .inl rfl⟩
          rcases pieces_opening hhead with ⟨defect, hp⟩ | ⟨body, f, t', rfl, hp, hf⟩
          · rw [hp]
            exact .broken _ defect
          · rw [hp]
            refine .field hf (fun hbody => hhead ?_)
              (ih t' (by simp only [List.length_cons, List.length_append]; omega))
            rw [List.head?_append, hbody, Option.some_or]
        · by_cases hclosing : c = '}'
          · subst hclosing
            rw [pieces_closing fun he => hdoubled ⟨he, .inr rfl⟩]
            exact .broken _ _
          · rw [pieces_cons ⟨hopening, hclosing⟩]
            exact .char ⟨hopening, hclosing⟩ (ih t (by simp))

def fieldMarks (name : List Char) (depth : Nat) (f : Field) : Except Defect (List Char) :=
  if '{' ∈ f.marks then fill name depth f.marks else .ok f.marks

def fieldText (name : List Char) (depth : Nat) (f : Field) : Except Defect (List Char) := do
  let value ← convert f.conversion (← valueAt name f.path)
  layOut (← fieldMarks name depth f) value

/-- How a template and what it is filled in to correspond part by part. -/
inductive Filled (name : List Char) (depth : Nat) : List Char → List Char → Prop
  | nil : Filled name depth [] []
  | char {c : Char} {t e : List Char} (hc : c ≠ '{' ∧ c ≠ '}') (h : Filled name depth t e) :
    Filled name depth (c :: t) (c :: e)
  | doubled {c : Char} {t e : List Char} (hc : c = '{' ∨ c = '}') (h : Filled name depth t e) :
    Filled name depth (c :: c :: t) (c :: e)
  | field {f : Field} {body v t e : List Char} (hf : f.Spells body) (hopen : body.head? ≠ some '{')
    (hv : fieldText name depth f = .ok v) (h : Filled name depth t e) :
    Filled name depth ('{' :: (body ++ '}' :: t)) (v ++ e)

def pieceText (name : List Char) (depth : Nat) : Piece → Except Defect (List Char)
  | .char c => .ok [c]
  | .broken defect => .error defect
  | .field f => fieldText name depth f

theorem fill_succ (name : List Char) (depth : Nat) (t : List Char) :
    fill name (depth + 1) t = ((pieces t).mapM (pieceText name depth)).map List.flatten := by
  have hparts : (fun p : Piece => show Except Defect (List Char) from match p with
      | .char c => pure [c]
      | .broken defect => throw defect
      | .field f => do
        let value ← convert f.conversion (← valueAt name f.path)
        let marks ← if '{' ∈ f.marks then fill name depth f.marks else pure f.marks
        layOut marks value) = pieceText name depth := by
    funext p
    cases p with
    | char c => rfl
    | broken defect => rfl
    | field f =>
      simp only [pieceText, fieldText, fieldMarks]
      split_ifs <;> rfl
  rw [fill, ← hparts]
  cases List.mapM (m := Except Defect) _ (pieces t) <;> rfl

theorem parts_cons {p : Piece} {ps : List Piece}
    (h : ((p :: ps).mapM (pieceText name depth)).map List.flatten = .ok e) :
    ∃ v e', e = v ++ e' ∧ pieceText name depth p = .ok v ∧
      (ps.mapM (pieceText name depth)).map List.flatten = .ok e' := by
  rw [List.mapM_cons] at h
  cases hp : pieceText name depth p with
  | error defect =>
    rw [hp] at h
    cases h
  | ok v =>
    cases hps : ps.mapM (pieceText name depth) with
    | error defect =>
      rw [hp, hps] at h
      cases h
    | ok vs =>
      rw [hp, hps] at h
      obtain rfl := Except.ok.inj h
      exact ⟨v, vs.flatten, rfl, rfl, rfl⟩

/-- What is filled in is filled in part by part. -/
theorem filled_of_fill (h : fill name (depth + 1) t = .ok e) : Filled name depth t e := by
  rw [fill_succ] at h
  have hreads := reads_pieces t
  generalize pieces t = ps at h hreads
  induction hreads generalizing e with
  | nil =>
    obtain rfl := Except.ok.inj h
    exact .nil
  | broken t defect =>
    obtain ⟨v, e, -, hv, -⟩ := parts_cons h
    cases hv
  | char hc _ ih =>
    obtain ⟨v, e, rfl, hv, he⟩ := parts_cons h
    obtain rfl := Except.ok.inj hv
    exact .char hc (ih he)
  | doubled hc _ ih =>
    obtain ⟨v, e, rfl, hv, he⟩ := parts_cons h
    obtain rfl := Except.ok.inj hv
    exact .doubled hc (ih he)
  | field hf hopen _ ih =>
    obtain ⟨v, e, rfl, hv, he⟩ := parts_cons h
    exact .field hf hopen hv (ih he)

end ApiScaffold.EntryTemplate
