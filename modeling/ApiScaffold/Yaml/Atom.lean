import ApiScaffold.Decimal.Shortest
import ApiScaffold.Text.CodePoint
import ApiScaffold.Yaml.Fault
import ApiScaffold.Yaml.Moment
import ApiScaffold.Yaml.Node

/-! Atoms: values without parts, and their texts. Only atoms may be keys. -/
namespace ApiScaffold.Yaml

open Text (CodePoint)

inductive Atom where
  | null
  | bool (b : Bool)
  | int (n : Int)
  /-- A float with the node that it comes from, if it is not one that all nodes share. -/
  | float (x : Binary64) (source : Option NodeId)
  | text (s : List CodePoint)
  | bytes (b : List UInt8)
  | date (year month day : Nat)
  | moment (m : Moment)
  deriving DecidableEq, Repr

namespace Atom

def boolText (b : Bool) : String :=
  if b then "True" else "False"

/-- The digits of an integer, of which there must not be too many. -/
def intText (n : Int) : Except Fault String :=
  if n.natAbs < Nat.pow 10 digitLimit then .ok (toString n) else .error (.digits none)

/-- An atom as it stands within a collection: texts are in quotes. -/
def quoted : Atom → Except Fault String
  | .null => .ok "None"
  | .bool b => .ok (boolText b)
  | .int n => intText n
  | .float x _ => .ok x.text
  | .text s => .ok (String.ofList (CodePoint.quote s))
  | .bytes b => .ok (String.ofList (Text.quoteBytes b))
  | .date year month day => .ok s!"datetime.date({year}, {month}, {day})"
  | .moment m => .ok m.quoted

def toText : Atom → Except Fault String
  | .text s => .ok (String.ofList (CodePoint.joined s))
  | .date year month day => .ok (dateText year month day)
  | .moment m => .ok m.text
  | a => a.quoted

/-- Whether an atom counts as nothing: null, false, zero or empty. -/
def isFalsy : Atom → Bool
  | .null => true
  | .bool b => !b
  | .int n => n = 0
  | .float x _ => x.isZero
  | .text s => s.isEmpty
  | .bytes b => b.isEmpty
  | .date .. | .moment _ => false

/-- A number as an integer, if it is one; truth values count as one and zero. -/
def integer? : Atom → Option Int
  | .bool b => some (if b then 1 else 0)
  | .int n => some n
  | .float x _ => x.toInt?
  | _ => none

/-- Whether two keys are the same. Numbers are compared by value; what is not a number is the same
as itself, which shows in where it comes from. -/
def sameKey (a b : Atom) : Bool :=
  match a.integer?, b.integer? with
  | some m, some n => m = n
  | none, none =>
    match a, b with
    | .null, .null => true
    | .float x source, .float y source' =>
      x.same y || x = .notANumber && y = .notANumber && source = source'
    | .text s, .text t => s = t
    | .bytes a, .bytes b => a = b
    | .date y m d, .date y' m' d' => y = y' && m = m' && d = d'
    | .moment a, .moment b => a.isSame b
    | _, _ => false
  | _, _ => false

theorem sameKey_text (s t : List CodePoint) : sameKey (.text s) (.text t) = decide (s = t) := rfl

end Atom
end ApiScaffold.Yaml
