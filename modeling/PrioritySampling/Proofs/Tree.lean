import Mathlib.Tactic.Common
import PrioritySampling.MinMaxHeap.Sift
/-!
# The tree under a node

`Node.Below a d` says that node `d` lies in the subtree under node `a`, without `a` itself.  It
is the relation that min-max order speaks of, while the heap itself never looks further than two
levels.  The two facts that bridge this gap are here: the sides of the levels alternate, and
what lies below a node is one of its children and grandchildren or lies below a grandchild.
-/

namespace PrioritySampling

namespace Node

/-! ## Descent -/

/-- Some number of steps to the parent, at least one, leads from `d` to `a`. -/
inductive Below (a : Nat) : Nat → Prop
  | child {d : Nat} : parent d = a → Below a d
  | deeper {d : Nat} : Below a (parent d) → Below a d

theorem below_iff {a d : Nat} : Below a d ↔ parent d = a ∨ Below a (parent d) := by
  constructor
  · intro h
    cases h with
    | child h => exact .inl h
    | deeper h => exact .inr h
  · rintro (h | h)
    · exact .child h
    · exact .deeper h

theorem Below.lt {a d : Nat} (ha : 1 ≤ a) (h : Below a d) : a < d := by
  induction h with
  | child h =>
    simp only [parent] at h
    omega
  | deeper _ ih =>
    simp only [parent] at ih
    omega

theorem Below.trans {a b d : Nat} (hab : Below a b) (hbd : Below b d) : Below a d := by
  induction hbd with
  | child h => exact .deeper (h ▸ hab)
  | deeper _ ih => exact .deeper ih

/-- Every other node lies below the root. -/
theorem root_below {d : Nat} (h : 2 ≤ d) : Below root d := by
  induction d using Nat.strongRecOn with
  | ind d ih =>
    by_cases hchild : parent d = root
    · exact .child hchild
    · simp only [parent, root] at hchild
      exact .deeper (ih (parent d) (by simp only [parent]; omega) (by simp only [parent]; omega))

@[simp]
theorem parent_parent (d : Nat) : parent (parent d) = grandparent d := by
  simp only [parent, grandparent]
  omega

/-- What lies above a node is its parent, its grandparent, or lies above its grandparent. -/
theorem below_iff_grandparent {a d : Nat} :
    Below a d ↔ parent d = a ∨ grandparent d = a ∨ Below a (grandparent d) := by
  rw [below_iff, below_iff, parent_parent]

/-- What lies below a node is a child of it or lies below a child. -/
theorem Below.exists_child {a d : Nat} (h : Below a d) :
    ∃ c, parent c = a ∧ (d = c ∨ Below c d) := by
  induction h with
  | @child d h => exact ⟨d, h, .inl rfl⟩
  | @deeper d _ ih =>
    obtain ⟨c, hc, hd | hd⟩ := ih
    · exact ⟨c, hc, .inr (.child hd)⟩
    · exact ⟨c, hc, .inr (.deeper hd)⟩

/-- What lies below a node is a child of it, or a grandchild, or lies below a grandchild. -/
theorem Below.child_or_grandchild {a d : Nat} (h : Below a d) :
    parent d = a ∨ ∃ g, grandparent g = a ∧ (d = g ∨ Below g d) := by
  obtain ⟨c, hc, rfl | hd⟩ := h.exists_child
  · exact .inl hc
  · obtain ⟨g, hg, hdg⟩ := hd.exists_child
    exact .inr ⟨g, by rw [← parent_parent, hg, hc], hdg⟩

/-! ## Sides -/

theorem depth_parent {node : Nat} (h : 2 ≤ node) : depth (parent node) + 1 = depth node := by
  rw [depth, depth, Nat.log2_def node, if_pos h, parent]

end Node

namespace Side

/-- The levels of the two ends alternate. -/
theorem ofNode_parent {node : Nat} (h : 2 ≤ node) :
    ofNode (Node.parent node) = (ofNode node).flip := by
  have hdepth := Node.depth_parent h
  simp only [ofNode, Node.onMinLevel, beq_iff_eq]
  by_cases heven : Node.depth node % 2 = 0
  · have hodd : ¬ Node.depth (Node.parent node) % 2 = 0 := by omega
    simp only [heven, hodd, if_true, if_false, flip]
  · have heven' : Node.depth (Node.parent node) % 2 = 0 := by omega
    simp only [heven, heven', if_true, if_false, flip]

theorem ofNode_grandparent {node : Nat} (h : 4 ≤ node) :
    ofNode (Node.grandparent node) = ofNode node := by
  have hparent : 2 ≤ Node.parent node := by
    simp only [Node.parent]
    omega
  rw [← Node.parent_parent, ofNode_parent hparent, ofNode_parent (by omega), flip_flip]

@[simp]
theorem ofNode_root : ofNode Node.root = low := by
  rfl

theorem flip_ne (side : Side) : side.flip ≠ side := by
  cases side <;> decide

theorem eq_flip_of_ne {a b : Side} (h : a ≠ b) : a = b.flip := by
  cases a <;> cases b <;> first | rfl | exact absurd rfl h

end Side

namespace Node

/-! ## Families -/

theorem mem_takeWhile_le {nodes : List Nat} (h : nodes.Pairwise (· < ·)) {d count : Nat} :
    d ∈ nodes.takeWhile (· ≤ count) ↔ d ∈ nodes ∧ d ≤ count := by
  induction nodes with
  | nil => simp
  | cons first later ih =>
    obtain ⟨hfirst, hlater⟩ := List.pairwise_cons.mp h
    by_cases hle : first ≤ count
    · rw [List.takeWhile_cons_of_pos (by simpa using hle), List.mem_cons, List.mem_cons, ih hlater]
      constructor
      · rintro (rfl | ⟨hmem, hd⟩)
        · exact ⟨.inl rfl, hle⟩
        · exact ⟨.inr hmem, hd⟩
      · rintro ⟨rfl | hmem, hd⟩
        · exact .inl rfl
        · exact .inr ⟨hmem, hd⟩
    · rw [List.takeWhile_cons_of_neg (by simpa using hle), List.mem_cons]
      constructor
      · intro hnil
        cases hnil
      · rintro ⟨rfl | hmem, hd⟩
        · exact absurd hd hle
        · have := hfirst d hmem
          omega

/-- The numbers of a family rise. -/
theorem family_pairwise {node : Nat} (h : 1 ≤ node) : (family node).Pairwise (· < ·) := by
  simp only [family, firstChild, secondChild, List.pairwise_cons, List.mem_cons,
    List.not_mem_nil, or_false, forall_eq_or_imp, forall_eq, false_imp_iff, implies_true,
    List.Pairwise.nil, and_true]
  omega

theorem mem_family {node d : Nat} :
    d ∈ family node ↔ parent d = node ∨ grandparent d = node := by
  simp only [family, firstChild, secondChild, parent, grandparent, List.mem_cons,
    List.not_mem_nil, or_false]
  omega

theorem mem_descendants {node d count : Nat} (h : 1 ≤ node) :
    d ∈ descendants node count ↔ (parent d = node ∨ grandparent d = node) ∧ d ≤ count := by
  rw [descendants, mem_takeWhile_le (family_pairwise h), mem_family]

theorem isGrandchild_iff {node d : Nat} (h : 1 ≤ node) :
    isGrandchild node d = true ↔ grandparent d = node := by
  simp only [isGrandchild, grandparent, Bool.and_eq_true, decide_eq_true_eq, beq_iff_eq]
  omega

end Node

/-- A grandchild is on the side of its grandparent. -/
theorem Side.ofNode_of_isGrandchild {node d : Nat} (h : Node.isGrandchild node d = true) :
    ofNode d = ofNode node := by
  simp only [Node.isGrandchild, Bool.and_eq_true, decide_eq_true_eq, beq_iff_eq] at h
  rw [← h.2, ofNode_grandparent h.1]

theorem Side.ofNode_parent_of_isGrandchild {node d : Nat} (h : Node.isGrandchild node d = true) :
    ofNode (Node.parent d) = (ofNode node).flip := by
  have hfour := (Node.lt_of_isGrandchild h).1
  rw [ofNode_parent (Nat.le_trans (by decide) hfour), ofNode_of_isGrandchild h]

/-! ## Places -/

attribute [ext] Place

namespace Place

variable {count : Nat}

theorem slot_inj {a b : Place count} : a.slot = b.slot ↔ a = b := by
  have ha := a.one_le
  have hb := b.one_le
  simp only [Place.ext_iff, Fin.ext_iff, slot, Node.slot]
  omega

theorem ne_of_below {a d : Place count} (h : Node.Below a.node d.node) : d ≠ a := by
  rintro rfl
  exact Nat.lt_irrefl _ (h.lt d.one_le)

/-- Places and slots count the same values. -/
theorem exists_slot_eq (slot : Fin count) : ∃ place : Place count, place.slot = slot :=
  ⟨⟨slot.val + 1, by omega, slot.isLt⟩, Fin.ext rfl⟩

theorem mem_descendants {place next : Place count} :
    next ∈ place.descendants ↔
      Node.parent next.node = place.node ∨ Node.grandparent next.node = place.node := by
  simp only [descendants, List.mem_pmap, Node.mem_descendants place.one_le]
  constructor
  · rintro ⟨node, ⟨hfamily, -⟩, rfl⟩
    exact hfamily
  · intro h
    exact ⟨next.node, ⟨h, next.le_count⟩, rfl⟩

/-- What lies below a place is of its family, or lies below a grandchild of the place. -/
theorem mem_descendants_or_below {place other : Place count}
    (h : Node.Below place.node other.node) :
    other ∈ place.descendants ∨
      ∃ g ∈ place.descendants, Node.grandparent g.node = place.node ∧
        Node.Below g.node other.node := by
  rcases h.child_or_grandchild with hchild | ⟨g, hg, rfl | hbelow⟩
  · exact .inl (mem_descendants.mpr (.inl hchild))
  · exact .inl (mem_descendants.mpr (.inr hg))
  · have hplace := place.one_le
    have hone : 1 ≤ g := by
      simp only [Node.grandparent] at hg
      omega
    have hlt := hbelow.lt hone
    have hle := other.le_count
    exact .inr ⟨⟨g, hone, by omega⟩, mem_descendants.mpr (.inr hg), hg, hbelow⟩

theorem ofNode?_eq_some {node : Nat} {place : Place count} :
    ofNode? count node = some place ↔ place.node = node := by
  simp only [ofNode?]
  constructor
  · intro h
    split at h
    · cases h
      rfl
    · cases h
  · rintro rfl
    rw [dif_pos ⟨place.one_le, place.le_count⟩]

theorem ofNode?_eq_none {node : Nat} (h : 1 ≤ node) : ofNode? count node = none ↔ count < node := by
  simp only [ofNode?]
  split <;> simp <;> omega

end Place

end PrioritySampling
