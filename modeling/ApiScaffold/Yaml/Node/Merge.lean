import ApiScaffold.Yaml.Fault
import ApiScaffold.Yaml.Node

/-! Merging mappings into others. Pairs merged in stand in front of a mapping's own pairs, which
replace them where the keys are the same. -/
namespace ApiScaffold.Yaml.Graph

abbrev Merging := StateT Graph (Except Fault)

/-- Takes the first pair with a merge key out of a list, if there is one. Gives its value. -/
def takeMerge (g : Graph) : List (NodeId × NodeId) → Option (NodeId × List (NodeId × NodeId))
  | [] => none
  | (k, v) :: rest =>
    if g.tag? k = some .merge then some (v, rest)
    else (takeMerge g rest).map fun (source, rest) => (source, (k, v) :: rest)

/-- Reads the keys with the tag for a default as texts from now on. -/
def plainKeys (g : Graph) (pairs : List (NodeId × NodeId)) : Graph :=
  pairs.foldl (fun g (k, _) => if g.tag? k = some .default then g.setTag k .text else g) g

/-- The pairs of a mapping once it has been merged with what its own merge keys stand for. -/
def mergedPairs (merge : NodeId → Merging Unit) (m : NodeId) :
    Merging (List (NodeId × NodeId)) := do
  if ((← get).pairs? m).isNone then throw .malformed
  merge m
  return ((← get).pairs? m).getD []

/-- Takes merge keys out of a mapping one by one, and puts the pairs of the mappings that they
stand for, behind those `found` before, in front of the others. Of several mappings under one key
the last comes first. -/
def mergeFrom : (bound : Nat) → (found : List (NodeId × NodeId)) → NodeId → Merging Unit
  | 0, _, _ => throw .malformed
  | bound + 1, found, n => do
    let g ← get
    let pairs := (g.pairs? n).getD []
    match g.takeMerge pairs with
    | none => set ((g.plainKeys pairs).setContent n (.mapping (found ++ pairs)))
    | some (source, rest) => do
      set (g.setContent n (.mapping rest))
      let more ← match g.get? source with
        | some ⟨_, .sequence items⟩ =>
          let merged ← items.mapM (mergedPairs (mergeFrom bound []))
          pure merged.reverse.flatten
        | _ => mergedPairs (mergeFrom bound []) source
      mergeFrom bound (found ++ more) n

/-- Merges into a mapping what its merge keys stand for. Each step takes a pair out of the graph, so
there are no more steps than pairs. -/
def merge (pairCount : Nat) (n : NodeId) : Merging Unit :=
  mergeFrom (pairCount + 1) [] n

end ApiScaffold.Yaml.Graph
