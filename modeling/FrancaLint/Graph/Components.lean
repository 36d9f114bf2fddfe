/-! # Cyclic components

The strongly connected components of a graph that are cycles, by one depth-first walk. The walk
numbers the nodes in the order of discovery and keeps for every node the least number of a node on
its stack that the node is known to lead to, its low-link. A node whose low-link is its own number
is the first one of its component, and the nodes above it on the stack are the others.

Nodes that carry data are walked by their keys: of two nodes with one key, the one that is met first
stands for both.

Main definitions: `Graph.Search`, what the walk knows; `Graph.Search.run`, its loop;
`Graph.cycles`. -/

namespace FrancaLint.Graph

variable {α κ : Type}

/-- An **open** node: its successors are being looked at. -/
structure Frame (α κ : Type) where
  /-- The key of the node. -/
  key : κ
  /-- The successors that have not been looked at. -/
  pending : List α
  deriving Repr, Inhabited

/-- What a **search** for components knows. Tables have their newest entries first, and the first
entry of a key counts. -/
structure Search (κ : Type) where
  /-- The keys that have been met with their numbers. -/
  index : List (κ × Nat) := []
  /-- The low-links of the keys. -/
  low : List (κ × Nat) := []
  /-- The keys that have been met and belong to no component yet, newest first. -/
  stack : List κ := []
  /-- The keys with an edge to themselves. -/
  selfLoops : List κ := []
  /-- The components that are cycles. -/
  found : List (List κ) := []
  deriving Repr, Inhabited

namespace Search

/-- The keys that have been met, newest first. -/
def met (search : Search κ) : List κ :=
  search.index.map Prod.fst

/-- A key is met: it gets the next number, which is its low-link as well. -/
def enter (search : Search κ) (k : κ) : Search κ :=
  { search with
    index := (k, search.index.length) :: search.index
    low := (k, search.index.length) :: search.low
    stack := k :: search.stack }

variable [DecidableEq κ]

/-- The number of a key. -/
def indexOf (search : Search κ) (k : κ) : Nat :=
  (search.index.lookup k).getD 0

/-- The low-link of a key. -/
def lowOf (search : Search κ) (k : κ) : Nat :=
  (search.low.lookup k).getD 0

/-- Lower the low-link of a key to a number, if that is less. -/
def lower (search : Search κ) (k : κ) (number : Nat) : Search κ :=
  { search with low := (k, min (search.lowOf k) number) :: search.low }

/-- Remember an edge of a key to itself. -/
def note (search : Search κ) (k target : κ) : Search κ :=
  if target = k then { search with selfLoops := k :: search.selfLoops } else search

/-- An edge leads to a key that has been met before. -/
def revisit (search : Search κ) (k target : κ) : Search κ :=
  if target ∈ search.stack then search.lower k (search.indexOf target) else search

/-- Put a key between others in the order of their numbers. -/
def place (search : Search κ) (k : κ) : List κ → List κ
  | [] => [k]
  | first :: rest =>
      if search.indexOf k ≤ search.indexOf first then k :: first :: rest
      else first :: search.place k rest

/-- Put keys in the order of their numbers. -/
def arrange (search : Search κ) (keys : List κ) : List κ :=
  keys.foldl (fun sorted k => search.place k sorted) []

/-- Take a component from the stack, down to its first key. It is kept if it is a cycle, in the
order of discovery. -/
def pop (search : Search κ) (k : κ) : Search κ :=
  let component := search.stack.takeWhile (· ≠ k) ++ [k]
  let rest := (search.stack.dropWhile (· ≠ k)).tail
  if 1 < component.length ∨ k ∈ search.selfLoops then
    { search with stack := rest, found := search.found ++ [search.arrange component] }
  else { search with stack := rest }

/-- All successors of a key have been looked at. The node that it was met from, if any, leads to
whatever it leads to. -/
def leave (search : Search κ) (k : κ) (parent : Option κ) : Search κ :=
  let popped := if search.lowOf k = search.indexOf k then search.pop k else search
  match parent with
  | none => popped
  | some parent => popped.lower parent (popped.lowOf k)

/-- Look at the successors of a node, up to the first one that has not been met. The successors
after that one are left. -/
def follow (key : α → κ) (k : κ) : List α → Search κ → Search κ × Option (α × List α)
  | [], search => (search, none)
  | target :: pending, search =>
      let noted := search.note k (key target)
      if key target ∈ search.met then follow key k pending (noted.revisit k (key target))
      else (noted, some (target, pending))

/-- Look at the successors of the open nodes, of the innermost one first, up to the first one that
has not been met. Nodes without further successors are left. -/
def advance (key : α → κ) :
    List (Frame α κ) → Search κ → Search κ × Option (α × List (Frame α κ))
  | [], search => (search, none)
  | frame :: rest, search =>
      match follow key frame.key frame.pending search with
      | (followed, some (target, pending)) =>
          (followed, some (target, ⟨frame.key, pending⟩ :: rest))
      | (followed, none) => advance key rest (followed.leave frame.key (rest.head?.map Frame.key))

/-- Meet the nodes that the open ones lead to, until none is open. The number bounds how many there
are. -/
def run (key : α → κ) (next : α → List α) (room : Nat) (frames : List (Frame α κ))
    (search : Search κ) : Search κ :=
  match advance key frames search with
  | (advanced, none) => advanced
  | (advanced, some (target, frames)) =>
      match room with
      | 0 => advanced
      | room + 1 =>
          run key next room (⟨key target, next target⟩ :: frames) (advanced.enter (key target))

/-- Search from a node, unless it has been met before. -/
def start (key : α → κ) (next : α → List α) (room : Nat) (search : Search κ) (node : α) :
    Search κ :=
  if key node ∈ search.met then search
  else run key next room [⟨key node, next node⟩] (search.enter (key node))

end Search

/-- The strongly connected components that are cycles and can be reached from some nodes, each in
the order of discovery. A component comes after those that it leads to. -/
def cycles [DecidableEq κ] (key : α → κ) (next : α → List α) (room : Nat) (nodes : List α) :
    List (List κ) :=
  (nodes.foldl (Search.start key next room) {}).found

end FrancaLint.Graph
