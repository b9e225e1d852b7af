import ApiScaffold.Yaml.Pieces

/-! Short files. A file that fits in one piece is read whole, and refused whole for a character that
may not stand in one. -/
namespace ApiScaffold.Yaml.Pieces

theorem unifyLineEnds_eq_self {s : List Char} (hs : '\r' ∉ s) : Text.unifyLineEnds s = s := by
  induction s with
  | nil => rfl
  | cons c s ih =>
    obtain ⟨hc, hs⟩ := List.ne_and_not_mem_of_not_mem_cons hs
    rw [Text.unifyLineEnds, if_neg hc.symm, ih hs]
    intro rest h
    exact (hc h.symm).elim

theorem utf8ByteSize_between (s : List Char) :
    s.length ≤ (String.ofList s).utf8ByteSize ∧ (String.ofList s).utf8ByteSize ≤ 4 * s.length := by
  induction s with
  | nil => simp
  | cons c s ih =>
    have hsplit : String.ofList (c :: s) = String.singleton c ++ String.ofList s := by
      rw [String.singleton_eq_ofList, ← String.ofList_append]
      rfl
    have hleast := c.utf8Size_pos
    have hmost := c.utf8Size_le_four
    rw [hsplit, String.utf8ByteSize_append, String.utf8ByteSize_singleton, List.length_cons]
    omega

namespace Intake

variable {s : String}

theorem readChunk_encode (hne : s ≠ "") (hreturn : '\r' ∉ s.toList)
    (hsize : s.utf8ByteSize ≤ chunkSize)
    (wanted : Nat) : readChunk { bytes := (Text.encode s).data.toList } wanted =
      .ok ({ bytes := [], ready := s.toList, chunkBytes := s.utf8ByteSize,
             chunkCharacters := s.toList.length }, false) := by
  have hlength : (Text.encode s).data.toList.length = s.utf8ByteSize := by
    rw [Array.length_toList]
    rfl
  have hle : (Text.encode s).data.toList.length ≤ max chunkSize wanted := by omega
  have hnil : (Text.encode s).data.toList.isEmpty = false := by
    rw [List.isEmpty_eq_false_iff]
    intro h
    rw [h] at hlength
    exact hne (String.utf8ByteSize_eq_zero_iff.1 hlength.symm)
  have hdecode : Text.decode ⟨(Text.encode s).data.toList.toArray⟩ = .ok s := by
    rw [Array.toArray_toList]
    exact Text.decode_encode s
  have hlast : s.toList.getLast? ≠ some '\r' := fun h => hreturn (List.mem_of_getLast? h)
  generalize (Text.encode s).data.toList = bytes at *
  simp [readChunk, estimate, Intake.characters,
    List.take_of_length_le hle, List.drop_of_length_le hle, hdecode, hlast,
    hnil, hlength, unifyLineEnds_eq_self hreturn, pure, Except.pure, bind, Except.bind]

theorem readChunk_end (ready : List Char) (bytes characters wanted : Nat) :
    readChunk { bytes := [], ready, chunkBytes := bytes, chunkCharacters := characters } wanted =
      .ok ({ bytes := [], ready }, true) := by
  have hdecode : Text.decode ⟨#[]⟩ = .ok "" := Text.decode_encode ""
  simp [readChunk, Intake.characters, hdecode, pure, Except.pure, bind, Except.bind,
    Text.unifyLineEnds]

/-- A short file is its own first piece. -/
theorem piece_encode (hne : s ≠ "") (hreturn : '\r' ∉ s.toList) (hsize : s.utf8ByteSize ≤ chunkSize)
    (hlength : s.toList.length < pieceLength) :
    piece { bytes := (Text.encode s).data.toList } = .ok (s.toList, { bytes := [] }) := by
  have hread (bound : Nat) : readFor (bound + 2) pieceLength
      { bytes := (Text.encode s).data.toList } = .ok { bytes := [], ready := s.toList } := by
    have hempty : ¬ pieceLength ≤ ([] : List Char).length := by decide
    simp only [readFor, if_neg hempty, if_neg (Nat.not_le.2 hlength),
      readChunk_encode hne hreturn hsize, readChunk_end, bind, Except.bind, pure, Except.pure]
    rfl
  rw [piece, hread]
  simp [bind, Except.bind, pure, Except.pure, List.take_of_length_le (Nat.le_of_lt hlength),
    List.drop_of_length_le (Nat.le_of_lt hlength)]

theorem piece_end : piece { bytes := [] } = .ok ([], { bytes := [] }) := by
  have hempty : ¬ pieceLength ≤ ([] : List Char).length := by decide
  simp only [piece, readFor, if_neg hempty, readChunk_end, bind, Except.bind, pure, Except.pure]
  rfl

end Intake

/-- A short file is a text if all its characters may stand in one. -/
theorem text_encode {s : String} (hne : s ≠ "")
    (hreturn : '\r' ∉ s.toList) (hlength : 4 * s.toList.length ≤ chunkSize) :
    text (Text.encode s) = if s.toList.all isAllowed then (s.toList, none)
      else ([], some .malformed) := by
  have hsize : s.utf8ByteSize ≤ chunkSize := by
    have hmost := (utf8ByteSize_between s.toList).2
    rw [String.ofList_toList] at hmost
    omega
  have hshort : s.toList.length < pieceLength := by
    unfold chunkSize at hlength
    unfold pieceLength
    omega
  have hrest (bound : Nat) : textFrom (bound + 1) { bytes := [] } = ([], none) := by
    rw [textFrom, Intake.piece_end]
    rfl
  unfold text
  simp only [Intake.piece_encode hne hreturn hsize hshort, bind, Except.bind, Intake.piece_end,
    pure, Except.pure, continued, hrest, List.append_nil]

end ApiScaffold.Yaml.Pieces
