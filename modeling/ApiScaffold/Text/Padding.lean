/-! Texts cut or filled up to a width. -/
namespace ApiScaffold.Text

inductive Alignment where
  | left
  | right
  | middle
  deriving DecidableEq, Repr

/-- A greatest length for a text, and a least width with what fills it. -/
structure Padding where
  limit : Option Nat := none
  width : Nat := 0
  alignment : Alignment := .left
  fill : Char := ' '
  deriving DecidableEq, Repr

namespace Padding

/-- The number of characters to put in front of a text if so many are missing. A text in the middle
has one more behind it if their number is odd. -/
def leading (a : Alignment) (missing : Nat) : Nat :=
  match a with
  | .left => 0
  | .right => missing
  | .middle => missing / 2

/-- Cuts a text to the limit, then fills it up to the width. -/
def apply (p : Padding) (s : List Char) : List Char :=
  let s := p.limit.elim s s.take
  let missing := p.width - s.length
  let before := leading p.alignment missing
  List.replicate before p.fill ++ s ++ List.replicate (missing - before) p.fill

end Padding
end ApiScaffold.Text
