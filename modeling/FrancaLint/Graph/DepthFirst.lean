/-! # The first cycle

A depth-first search for a cycle. Nodes that carry data are walked by their keys: of two nodes with
one key, the one that is met first stands for both.

Main definitions: `Graph.searchCycle`, the search along a path, and `Graph.findCycle?`. -/

namespace FrancaLint.Graph

variable {α κ : Type} [DecidableEq κ]

/-- Search depth first from a node that has not been met. `path` leads to the node and `met` holds
every key met so far. The answer is a cycle, whose first key is repeated at its end, or the keys
met. The number bounds the depth. -/
def searchCycle (key : α → κ) (next : α → List α) :
    Nat → List κ → List κ → α → Except (List κ) (List κ)
  | 0, _, met, _ => .ok met
  | depth + 1, path, met, node =>
      let path := path ++ [key node]
      (next node).foldlM (fun met target =>
        if key target ∈ path then
          .error (path.dropWhile (· ≠ key target) ++ [key target])
        else if key target ∈ met then .ok met
        else searchCycle key next depth path met target) (key node :: met)

/-- The first cycle that a depth-first search from a node meets. -/
def findCycle? (key : α → κ) (next : α → List α) (depth : Nat) (node : α) : Option (List κ) :=
  match searchCycle key next depth [] [] node with
  | .ok _ => none
  | .error cycle => some cycle

end FrancaLint.Graph
