import ApiScaffold.Yaml.Atom

/-! The order of the numbers in a set. Each has a slot in a table with some room, by its residue, or
the next one that is free; the set is told slot by slot. Sets of other members keep the order in
which they were written. -/
namespace ApiScaffold.Yaml.SetOrder

/-- The prime of residues, one less than `2 ^ 61`. -/
def prime : Nat := (1 <<< 61) - 1

/-- The residue of `m * 2 ^ e` with its sign. Powers of two repeat every 61 steps. No
residue is `-1`. -/
def residue (negative : Bool) (m : Nat) (e : Int) : Int :=
  let r := (m % prime) <<< (e % 61).toNat % prime
  if negative then if r = 1 then -2 else -r else r

def infiniteResidue : Nat := 314159

def residue? : Atom → Option Int
  | .bool b => some (if b then 1 else 0)
  | .int n => some (residue (n < 0) n.natAbs 0)
  | .float (.finite negative m e) _ => some (residue negative m e)
  | .float (.infinite negative) _ => some (residue negative infiniteResidue 0)
  | _ => none

/-- The slots of a table: eight for up to four members, and else the least power of two above twice
their number. -/
def tableSize (count : Nat) : Nat :=
  if count < 5 then 8 else 1 <<< ((2 * count).log2 + 1)

/-- The slots behind a slot that are tried with it, if the table has so many. -/
def span : Nat := 9

/-- The first free slot of a table, from a slot on. What is left of the residue says where to go
on. -/
def freeSlot (size : Nat) (taken : List Nat) : (bound slot left : Nat) → Nat
  | 0, slot, _ => slot
  | bound + 1, slot, left =>
    let tried := if slot + span < size then List.range' slot (span + 1) else [slot]
    match tried.find? fun s => !taken.contains s with
    | some s => s
    | none => freeSlot size taken bound ((5 * slot + 1 + left >>> 5) % size) (left >>> 5)

def slotFor (size : Nat) (taken : List Nat) (r : Int) : Nat :=
  let word := (r % (1 <<< 64 : Nat)).toNat
  freeSlot size taken (size + 64) (word % size) word

/-- Members with their slots, each put where the ones before leave room. -/
def place (size : Nat) (placed : List (Nat × Atom)) : List (Atom × Int) → List (Nat × Atom)
  | [] => placed
  | (a, r) :: rest => place size ((slotFor size (placed.map (·.1)) r, a) :: placed) rest

/-- The members of a set in the order in which they are told. -/
def order (items : List Atom) : List Atom :=
  match items.mapM fun a => (residue? a).map (a, ·) with
  | none => items
  | some members =>
    let size := tableSize items.length
    let placed := place size [] members
    (List.range size).filterMap fun slot => placed.lookup slot

end ApiScaffold.Yaml.SetOrder
