import ApiScaffold.Yaml.SetOrder

/-! Documents: atoms and collections. Collections are known by the numbers of their nodes, so one
may lie within itself. -/
namespace ApiScaffold.Yaml

inductive Value where
  | atom (a : Atom)
  | collection (n : NodeId)
  deriving DecidableEq, Repr

inductive Collection where
  | list (items : List Value)
  | pairs (items : List (Value × Value))
  | mapping (entries : List (Atom × Value))
  | set (items : List Atom)
  deriving DecidableEq, Repr

/-- The value of a document, and its collections by number. -/
structure Document where
  root : Value
  collections : Array (Option Collection)
  deriving DecidableEq, Repr

/-- Puts an entry into a mapping. A key that is there keeps its place and gets the new value. -/
def insertEntry (key : Atom) (value : Value) : List (Atom × Value) → List (Atom × Value)
  | [] => [(key, value)]
  | (k, v) :: rest =>
    if k.sameKey key then (k, value) :: rest else (k, v) :: insertEntry key value rest

def valueFor? (key : String) (entries : List (Atom × Value)) : Option Value :=
  (entries.find? fun (k, _) => k = .text (Text.CodePoint.ofChars key.toList)).map (·.2)

namespace Collection

def isEmpty : Collection → Bool
  | .list items => items.isEmpty
  | .pairs items => items.isEmpty
  | .mapping entries => entries.isEmpty
  | .set items => items.isEmpty

/-- What stands for a collection within itself. -/
def within : Collection → String
  | .list _ | .pairs _ => "[...]"
  | .mapping _ | .set _ => "\x7b...\x7d"

/-- A collection as a text, given the texts of the values in it. -/
def text (quoted : Value → Except Fault String) : Collection → Except Fault String
  | .list items => return "[" ++ ", ".intercalate (← items.mapM quoted) ++ "]"
  | .pairs items => do
    let parts ← items.mapM fun (a, b) => return "(" ++ (← quoted a) ++ ", " ++ (← quoted b) ++ ")"
    return "[" ++ ", ".intercalate parts ++ "]"
  | .mapping entries => do
    let parts ← entries.mapM fun (key, value) => return (← key.quoted) ++ ": " ++ (← quoted value)
    return "\x7b" ++ ", ".intercalate parts ++ "\x7d"
  | .set [] => return "set()"
  | .set items =>
    return "\x7b" ++ ", ".intercalate (← (SetOrder.order items).mapM Atom.quoted) ++ "\x7d"

end Collection

namespace Document

def collection? (d : Document) (n : NodeId) : Option Collection :=
  d.collections[n]?.join

/-- A value as it stands within the collections `outer`. -/
def quotedWithin (d : Document) :
    (bound : Nat) → (outer : List NodeId) → Value → Except Fault String
  | _, _, .atom a => a.quoted
  | 0, _, _ => .error .endless
  | bound + 1, outer, .collection n =>
    match d.collection? n with
    | none => .error .malformed
    | some c => if n ∈ outer then .ok c.within else c.text (d.quotedWithin bound (n :: outer))

/-- A value as a text. Values go no deeper than there are collections until one is within itself.
The stack of a run, with room for about a thousand levels, does not bound them here. -/
def text (d : Document) (v : Value) : Except Fault String :=
  match v with
  | .atom a => a.toText
  | v => d.quotedWithin (d.collections.size + 1) [] v

def isFalsy (d : Document) : Value → Bool
  | .atom a => a.isFalsy
  | .collection n => (d.collection? n).all Collection.isEmpty

def entries? (d : Document) : Value → Option (List (Atom × Value))
  | .atom _ => none
  | .collection n =>
    match d.collection? n with
    | some (.mapping entries) => some entries
    | _ => none

end Document
end ApiScaffold.Yaml
