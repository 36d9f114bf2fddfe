/-! # Reachability in a finite graph

A finite graph is a list of nodes with their successors. Main definition: `Graph.reach`, the nodes
that can be reached from some start nodes. -/

namespace FrancaLint.Graph

variable {α : Type} [DecidableEq α]

/-- The successors of a node, none if the graph does not list it. -/
def successors (edges : List (α × List α)) (node : α) : List α :=
  (edges.lookup node).getD []

/-- The graph without the entry of a node. -/
def without (edges : List (α × List α)) (node : α) : List (α × List α) :=
  edges.filter (·.1 ≠ node)

/-- A node whose entry is missing has no successors. -/
theorem successors_eq_nil {edges : List (α × List α)} {node : α}
    (missing : ∀ entry ∈ edges, entry.1 ≠ node) : successors edges node = [] := by
  have absent : edges.lookup node = none := by
    rw [List.lookup_eq_none_iff]
    intro entry member
    simpa using fun same : node = entry.1 => missing entry member same.symm
  simp [successors, absent]

/-- A graph is smaller without an entry that it has. -/
theorem length_without_lt {edges : List (α × List α)} {node : α}
    (present : ∃ entry ∈ edges, entry.1 = node) :
    (without edges node).length < edges.length := by
  obtain ⟨entry, member, same⟩ := present
  exact List.length_filter_lt_length_iff_exists.mpr ⟨entry, member, by simp [same]⟩

/-- A graph is the same without an entry that it does not have. -/
theorem without_eq_self {edges : List (α × List α)} {node : α}
    (missing : ∀ entry ∈ edges, entry.1 ≠ node) : without edges node = edges := by
  rw [without, List.filter_eq_self]
  intro entry member
  simpa using missing entry member

/-- The nodes that can be reached from the pending ones, in front of those that have been seen. The
entry of a node is dropped from the graph as soon as its successors are pending. -/
def reach (edges : List (α × List α)) (pending seen : List α) : List α :=
  match pending with
  | [] => seen
  | node :: rest =>
      if node ∈ seen then reach edges rest seen
      else reach (without edges node) (successors edges node ++ rest) (node :: seen)
termination_by (edges.length, pending.length)
decreasing_by
  · exact Prod.Lex.right _ (by simp)
  · by_cases present : ∃ entry ∈ edges, entry.1 = node
    · exact Prod.Lex.left _ _ (length_without_lt present)
    · have missing : ∀ entry ∈ edges, entry.1 ≠ node := fun entry member same =>
        present ⟨entry, member, same⟩
      rw [without_eq_self missing, successors_eq_nil missing]
      exact Prod.Lex.right _ (by simp)

end FrancaLint.Graph
