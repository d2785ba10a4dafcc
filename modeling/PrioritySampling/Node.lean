/-!
# Nodes of an implicit binary tree

The tree is stored in an array, level by level.  Its nodes are numbered from the root, which
is 1, so that the children of a node are its double and the number after it.  Everything here
is arithmetic on these numbers: it holds of the endless tree, and `descendants` and `Place`
cut it off at the number of values that the array holds.

Levels alternate between the two ends of the order.  Even depths, the root's among them, are
the levels of least values, odd depths those of greatest values.
-/

namespace PrioritySampling

namespace Node

/-- The number of the root. -/
def root : Nat := 1

/-- The array slot of a node.  Slots count from zero. -/
def slot (node : Nat) : Nat :=
  node - 1

/-- The number of steps from the root, which is the whole part of the binary logarithm. -/
def depth (node : Nat) : Nat :=
  node.log2

/-- The node lies on a level of least values. -/
def onMinLevel (node : Nat) : Bool :=
  depth node % 2 == 0

/-- The node one level up.  The root has none, and 0 stands for it. -/
def parent (node : Nat) : Nat :=
  node / 2

/-- The node two levels up, or 0 where there is none. -/
def grandparent (node : Nat) : Nat :=
  node / 4

/-- The left child. -/
def firstChild (node : Nat) : Nat :=
  2 * node

/-- The right child. -/
def secondChild (node : Nat) : Nat :=
  2 * node + 1

/-- The second node lies exactly two levels below the first. -/
def isGrandchild (ancestor descendant : Nat) : Bool :=
  4 ≤ descendant && grandparent descendant == ancestor

/-- The two children and four grandchildren of a node, from left to right. -/
def family (node : Nat) : List Nat :=
  [firstChild node, secondChild node,
    firstChild (firstChild node), secondChild (firstChild node),
    firstChild (secondChild node), secondChild (secondChild node)]

/-- The children and grandchildren that exist in a tree of `count` nodes.  Their numbers
rise, so the first one beyond the end closes the list. -/
def descendants (node count : Nat) : List Nat :=
  (family node).takeWhile (· ≤ count)

/-- A descendant lies within the tree and is no root. -/
theorem bounds_of_mem_descendants {node count d : Nat} (hnode : 1 ≤ node)
    (h : d ∈ descendants node count) : 1 ≤ d ∧ d ≤ count := by
  constructor
  · have hmem : d ∈ family node := (List.takeWhile_sublist _).subset h
    simp only [family, firstChild, secondChild, List.mem_cons, List.not_mem_nil, or_false] at hmem
    omega
  · have hle := List.all_takeWhile (p := fun x : Nat => decide (x ≤ count)) (l := family node)
    have := List.all_eq_true.1 hle d h
    simpa using this

/-- A node is smaller than each of its grandchildren. -/
theorem lt_of_isGrandchild {node d : Nat} (h : isGrandchild node d = true) :
    4 ≤ d ∧ node < d := by
  simp only [isGrandchild, grandparent, Bool.and_eq_true, decide_eq_true_eq, beq_iff_eq] at h
  omega

end Node

/-- A node that exists in a tree of `count` nodes. -/
structure Place (count : Nat) where
  /-- The number of the node. -/
  node : Nat
  one_le : 1 ≤ node
  le_count : node ≤ count

namespace Place

variable {count : Nat}

/-- The node of that number, if the tree has it. -/
def ofNode? (count node : Nat) : Option (Place count) :=
  if h : 1 ≤ node ∧ node ≤ count then some ⟨node, h.1, h.2⟩ else none

/-- The array slot of an existing node, which is within the array. -/
def slot (place : Place count) : Fin count :=
  ⟨Node.slot place.node, by
    have := place.one_le
    have := place.le_count
    simp only [Node.slot]
    omega⟩

/-- The parent of any node but the root. -/
def parent (place : Place count) (h : 2 ≤ place.node) : Place count :=
  ⟨Node.parent place.node, by simp only [Node.parent]; omega, by
    have := place.le_count
    simp only [Node.parent]
    omega⟩

/-- The grandparent of any node below the second level. -/
def grandparent (place : Place count) (h : 4 ≤ place.node) : Place count :=
  ⟨Node.grandparent place.node, by simp only [Node.grandparent]; omega, by
    have := place.le_count
    simp only [Node.grandparent]
    omega⟩

/-- The children and grandchildren that exist, from left to right. -/
def descendants (place : Place count) : List (Place count) :=
  (Node.descendants place.node count).pmap
    (fun node h => ⟨node, h.1, h.2⟩)
    (fun _ h => Node.bounds_of_mem_descendants place.one_le h)

end Place

end PrioritySampling
