import ApiScaffold.Text.LineBreak

/-! Blank characters, and texts without the blanks at their ends. -/
namespace ApiScaffold.Text

/-- White space in the sense of Unicode, with the four information separators. -/
def isBlank (c : Char) : Bool :=
  isLineBreak c || c = ' ' || c = '\t' || c = '\x1f' || c = '\u00a0' || c = '\u1680' ||
    ('\u2000' ≤ c && c ≤ '\u200a') || c = '\u202f' || c = '\u205f' || c = '\u3000'

def strip (s : List Char) : List Char :=
  ((s.dropWhile isBlank).reverse.dropWhile isBlank).reverse

theorem strip_eq_self {s : List Char} (hhead : ∀ c, s.head? = some c → isBlank c = false)
    (hlast : ∀ c, s.getLast? = some c → isBlank c = false) : strip s = s := by
  have hd (t : List Char) (h : ∀ c, t.head? = some c → isBlank c = false) :
      t.dropWhile isBlank = t := by
    cases t with
    | nil => rfl
    | cons c r => simp [h c rfl]
  rw [strip, hd s hhead, hd s.reverse (by simpa using hlast), List.reverse_reverse]

end ApiScaffold.Text
