import Mathlib.Algebra.Group.Nat.Defs
import Mathlib.Tactic.Common
import PrioritySampling.Proofs.Tree
/-!
# Sifting on guard

The heap addresses its array through places, which exist, and by numbers without a limit, and its
loops come with the reason why they end.  A machine has none of this: it has an array, words of
64 bits, and loops that end if they do.  Here the same steps are taken once more the way a machine
takes them, on guard: each sum, product and difference is checked to fit into a word, each slot to
lie within the array, and each loop is given a number of rounds to end in.  The answer `none`
stands for a check that failed or for rounds that ran out.

Every function on guard is then shown to give the answer of its counterpart.  Nothing is asked of
the comparator.  A value that climbs divides its node by four, and one that sinks multiplies it by
four at least, so either way 32 rounds are enough for all nodes that a word can number.  What keeps
the numbers small is a bound on the size of the array, 60 bits, as the numbers of grandchildren
have two more.
-/

namespace PrioritySampling

namespace Guarded

/-! ## Words -/

/-- A number, if it fits into a word. -/
def word (n : Nat) : Option Nat :=
  if n < UInt64.size then some n else none

def add (a b : Nat) : Option Nat :=
  word (a + b)

def mul (a b : Nat) : Option Nat :=
  word (a * b)

def sub (a b : Nat) : Option Nat :=
  if b ≤ a then some (a - b) else none

theorem word_eq {n : Nat} (h : n < UInt64.size) : word n = some n :=
  if_pos h

theorem sub_eq {a b : Nat} (h : b ≤ a) : sub a b = some (a - b) :=
  if_pos h

/-! ## Nodes -/

/-- The array slot of a node. -/
def slot (node : Nat) : Option Nat :=
  sub node 1

/-- The number of leading zeros of a word. -/
def leadingZeros (node : Nat) : Nat :=
  if node = 0 then 64 else 63 - node.log2

/-- The number of steps from the root. -/
def depth (node : Nat) : Option Nat :=
  sub 63 (leadingZeros node)

/-- The end whose values the level of a node holds. -/
def sideOf (node : Nat) : Option Side := do
  return if (← depth node) % 2 == 0 then .low else .high

def firstChild (node : Nat) : Option Nat :=
  mul node 2

def secondChild (node : Nat) : Option Nat := do
  add (← mul node 2) 1

/-- The numbers from one to another, both included. -/
def span (first last : Nat) : List Nat :=
  List.range' first (last + 1 - first)

/-- The children and grandchildren that exist in a tree of `count` nodes.  The numbers at the ends
are computed whether or not they exist. -/
def descendants (node count : Nat) : Option (List Nat) := do
  let children := span (← firstChild node) (← secondChild node)
  let grandchildren :=
    span (← firstChild (← firstChild node)) (← secondChild (← secondChild node))
  return (children ++ grandchildren).takeWhile (· ≤ count)

/-- The rounds that a loop of sifting is given. -/
def rounds : Nat := 32

/-! ## Arrays -/

section Definitions

variable {α : Type} (cmp : Comparator α)

/-- The value at a node. -/
def read (items : Array α) (node : Nat) : Option α := do
  items[← slot node]?

/-- The array with the values of two nodes exchanged. -/
def exchange (items : Array α) (a b : Nat) : Option (Array α) := do
  let left ← slot a
  let right ← slot b
  if left < items.size ∧ right < items.size then some (items.swapIfInBounds left right) else none

/-- The value at node `a` is strictly nearer to an end than the one at node `b`. -/
def ahead (side : Side) (items : Array α) (a b : Nat) : Option Bool := do
  return side.ahead cmp (← read items a) (← read items b)

/-- Lets the value at a node climb from grandparent to grandparent while it is ahead. -/
def climb (side : Side) : Nat → Array α → Nat → Option (Array α)
  | 0, _, _ => none
  | rounds + 1, items, node =>
    if 4 ≤ node then do
      let above := Node.grandparent node
      if ← ahead cmp side items node above then
        climb side rounds (← exchange items node above) above
      else
        some items
    else
      some items

/-- Moves the value at a node up to where it belongs. -/
def siftUp (items : Array α) (node : Nat) : Option (Array α) :=
  if node = Node.root then some items else do
    let above := Node.parent node
    let side ← sideOf node
    if ← ahead cmp side.flip items node above then
      climb cmp side.flip rounds (← exchange items node above) above
    else
      climb cmp side rounds items node

/-- The foremost of the node kept so far and one more. -/
def keep (side : Side) (items : Array α) : Option Nat → Nat → Option (Option Nat)
  | none, node => some (some node)
  | some best, node => do return some (if ← ahead cmp side items node best then node else best)

/-- The node that is ahead of all other children and grandchildren, the first such if several
are. -/
def foremost (side : Side) (count : Nat) (items : Array α) (node : Nat) : Option (Option Nat) := do
  (← descendants node count).foldlM (keep cmp side items) none

/-- Lets the value at a node sink while one of its children and grandchildren is ahead of it. -/
def sink (side : Side) (count : Nat) : Nat → Array α → Nat → Option (Array α)
  | 0, _, _ => none
  | rounds + 1, items, node => do
    match ← foremost cmp side count items node with
    | none => some items
    | some next =>
      if ← ahead cmp side items next node then
        let items ← exchange items next node
        if Node.isGrandchild node next then
          let above := Node.parent next
          if ← ahead cmp side.flip items next above then
            sink side count rounds (← exchange items next above) next
          else
            sink side count rounds items next
        else
          some items
      else
        some items

/-- Moves the value at a node down to where it belongs, on the side of the node's level. -/
def siftDown (items : Array α) (node : Nat) : Option (Array α) := do
  sink cmp (← sideOf node) items.size rounds items node

/-- The node with the most extreme value on a side, if there is any value. -/
def extreme (items : Array α) : Side → Option (Option Nat)
  | .low => some (if items.size = 0 then none else some Node.root)
  | .high =>
    match items.size with
    | 0 => some none
    | 1 => some (some Node.root)
    | 2 => do return some (← firstChild Node.root)
    | _ => do
      let left ← firstChild Node.root
      let right ← secondChild Node.root
      return some (if ← ahead cmp .low items left right then right else left)

/-- Takes a value out of its slot and puts the last one there. -/
def swapRemove (items : Array α) (slot : Nat) : Option (α × Array α) := do
  let value ← items[slot]?
  let last ← sub items.size 1
  return (value, (items.swapIfInBounds slot last).pop)

/-- Takes out the value at a node: the last value takes its place and sinks. -/
def removeAt (items : Array α) (node : Nat) : Option (α × Array α) := do
  let (value, rest) ← swapRemove items (← slot node)
  if node ≤ rest.size then return (value, ← siftDown cmp rest node) else return (value, rest)

end Definitions

/-! ## Numbers on guard -/

/-- So many values can be addressed, with their grandchildren, in words. -/
def addressable (count : Nat) : Prop :=
  4 * count + 3 < UInt64.size

theorem depth_eq {node : Nat} (hone : 1 ≤ node) (hword : node < UInt64.size) :
    depth node = some (Node.depth node) := by
  have hne : node ≠ 0 := Nat.ne_of_gt hone
  have hlog : node.log2 < 64 := (Nat.log2_lt hne).mpr hword
  rw [depth, leadingZeros, if_neg hne, sub_eq (Nat.sub_le _ _), Node.depth]
  congr 1
  omega

theorem sideOf_eq {node : Nat} (hone : 1 ≤ node) (hword : node < UInt64.size) :
    sideOf node = some (Side.ofNode node) := by
  rw [sideOf, depth_eq hone hword]
  rfl

theorem firstChild_eq {node : Nat} (h : 2 * node < UInt64.size) :
    firstChild node = some (Node.firstChild node) := by
  rw [firstChild, mul, Nat.mul_comm]
  exact word_eq h

theorem secondChild_eq {node : Nat} (h : 2 * node + 1 < UInt64.size) :
    secondChild node = some (Node.secondChild node) := by
  have hmul : mul node 2 = some (2 * node) := by
    rw [mul, Nat.mul_comm]
    exact word_eq (Nat.lt_of_succ_lt h)
  rw [secondChild, hmul]
  exact word_eq h

/-- The two spans are the family of the node. -/
theorem span_append_span (node : Nat) :
    span (2 * node) (2 * node + 1) ++ span (2 * (2 * node)) (2 * (2 * node + 1) + 1) =
      Node.family node := by
  have hchildren : 2 * node + 1 + 1 - 2 * node = 2 := by omega
  have hgrandchildren : 2 * (2 * node + 1) + 1 + 1 - 2 * (2 * node) = 4 := by omega
  rw [span, span, hchildren, hgrandchildren]
  rfl

theorem descendants_eq {node count : Nat} (h : 4 * node + 3 < UInt64.size) :
    descendants node count = some (Node.descendants node count) := by
  have hfirst : firstChild node = some (2 * node) := firstChild_eq (by omega)
  have hsecond : secondChild node = some (2 * node + 1) := secondChild_eq (by omega)
  have hfirst' : firstChild (2 * node) = some (2 * (2 * node)) := firstChild_eq (by omega)
  have hsecond' : secondChild (2 * node + 1) = some (2 * (2 * node + 1) + 1) :=
    secondChild_eq (by omega)
  simp only [descendants, hfirst, hsecond, hfirst', hsecond', Option.bind_eq_bind, Option.bind_some,
    span_append_span]
  rfl

theorem four_mul_le_of_isGrandchild {node next : Nat} (h : Node.isGrandchild node next = true) :
    4 * node ≤ next := by
  simp only [Node.isGrandchild, Node.grandparent, Bool.and_eq_true, beq_iff_eq] at h
  omega

/-! ## Arrays on guard -/

section Arrays

variable {α : Type} {n : Nat} (cmp : Comparator α)

theorem slot_eq (place : Place n) : slot place.node = some (place.slot : Nat) :=
  sub_eq place.one_le

example : slot 0 = none := rfl

theorem getElem?_slot (items : Vector α n) (place : Place n) :
    items.toArray[(place.slot : Nat)]? = some (items.get place.slot) := by
  have hlt : (place.slot : Nat) < items.toArray.size := by
    rw [items.size_toArray]
    exact place.slot.isLt
  exact Array.getElem?_eq_getElem hlt

theorem read_eq (items : Vector α n) (place : Place n) :
    read items.toArray place.node = some (items.get place.slot) := by
  rw [read, slot_eq]
  exact getElem?_slot items place

example : read #[5] 2 = none := rfl

theorem swapIfInBounds_eq (items : Vector α n) (a b : Place n) :
    items.toArray.swapIfInBounds a.slot b.slot = (MinMaxHeap.exchange items a b).toArray := by
  have hleft : (a.slot : Nat) < items.toArray.size := by
    rw [items.size_toArray]
    exact a.slot.isLt
  have hright : (b.slot : Nat) < items.toArray.size := by
    rw [items.size_toArray]
    exact b.slot.isLt
  rw [Array.swapIfInBounds_def, dif_pos hleft, dif_pos hright]
  rfl

theorem exchange_eq (items : Vector α n) (a b : Place n) :
    exchange items.toArray a.node b.node = some (MinMaxHeap.exchange items a b).toArray := by
  have hslots : (a.slot : Nat) < items.toArray.size ∧ (b.slot : Nat) < items.toArray.size := by
    rw [items.size_toArray]
    exact ⟨a.slot.isLt, b.slot.isLt⟩
  rw [exchange, slot_eq, slot_eq, ← swapIfInBounds_eq]
  exact if_pos hslots

theorem ahead_eq (side : Side) (items : Vector α n) (a b : Place n) :
    ahead cmp side items.toArray a.node b.node =
      some (side.ahead cmp (items.get a.slot) (items.get b.slot)) := by
  rw [ahead, read_eq, read_eq]
  rfl

/-- A value at a node below `4 ^ k` climbs for less than `k` rounds. -/
theorem climb_eq {k : Nat} (side : Side) (items : Vector α n) (place : Place n)
    (hk : place.node < 4 ^ k) :
    climb cmp side k items.toArray place.node =
      some (MinMaxHeap.climb cmp side items place).toArray := by
  induction k generalizing items place with
  | zero => exact absurd place.one_le (Nat.not_le_of_gt hk)
  | succ k ih =>
    rw [climb, MinMaxHeap.climb]
    by_cases hgrand : 4 ≤ place.node
    · have habove : Node.grandparent place.node = (place.grandparent hgrand).node := rfl
      have hlt : (place.grandparent hgrand).node < 4 ^ k := by
        rw [Nat.pow_succ] at hk
        exact Nat.div_lt_of_lt_mul (by omega)
      rw [if_pos hgrand, dif_pos hgrand]
      simp only [habove, ahead_eq, exchange_eq, Option.bind_eq_bind, Option.bind_some]
      split
      · exact ih _ _ hlt
      · rfl
    · rw [if_neg hgrand, dif_neg hgrand]

/-- The rounds are enough for every node. -/
theorem lt_four_pow_rounds (hn : addressable n) : n < 4 ^ rounds := by
  have hword : UInt64.size = 4 ^ rounds := by decide
  rw [addressable] at hn
  omega

theorem sideOf_eq_of_place (hn : addressable n) (place : Place n) :
    sideOf place.node = some (Side.ofNode place.node) := by
  have hle := place.le_count
  rw [addressable] at hn
  exact sideOf_eq place.one_le (by omega)

theorem siftUp_eq (hn : addressable n) (items : Vector α n) (place : Place n) :
    siftUp cmp items.toArray place.node = some (MinMaxHeap.siftUp cmp items place).toArray := by
  have hside := sideOf_eq_of_place hn place
  rw [siftUp, MinMaxHeap.siftUp]
  by_cases hparent : 2 ≤ place.node
  · have hroot : place.node ≠ Node.root := Nat.ne_of_gt hparent
    have habove : Node.parent place.node = (place.parent hparent).node := rfl
    rw [if_neg hroot, dif_pos hparent]
    simp only [hside, habove, ahead_eq, exchange_eq, Option.bind_eq_bind, Option.bind_some]
    have hrounds := lt_four_pow_rounds hn
    split
    · exact climb_eq cmp _ _ _ (Nat.lt_of_le_of_lt (Place.le_count _) hrounds)
    · exact climb_eq cmp _ _ _ (Nat.lt_of_le_of_lt place.le_count hrounds)
  · have hroot : place.node = Node.root :=
      Nat.le_antisymm (Nat.le_of_not_lt hparent) place.one_le
    rw [if_pos hroot, dif_neg hparent]

theorem foldlM_keep (side : Side) (items : Vector α n) (best : Place n)
    (others : List (Place n)) :
    (others.map Place.node).foldlM (keep cmp side items.toArray) (some best.node) =
      some (some (others.foldl (fun best place =>
        if side.ahead cmp (items.get place.slot) (items.get best.slot) then place else best)
        best).node) := by
  induction others generalizing best with
  | nil => rfl
  | cons place others ih =>
    rw [List.map_cons, List.foldlM_cons, List.foldl_cons, ← ih, keep, ahead_eq]
    simp only [Option.bind_eq_bind, Option.bind_some, Option.pure_def, apply_ite Place.node]

/-- The places among the children and grandchildren are the nodes that exist. -/
theorem map_node_descendants (place : Place n) :
    place.descendants.map Place.node = Node.descendants place.node n := by
  rw [Place.descendants, List.map_pmap]
  exact List.pmap_eq_self.mpr fun _ _ => rfl

theorem foremost_eq (hn : addressable n) (side : Side) (items : Vector α n) (place : Place n) :
    foremost cmp side n items.toArray place.node =
      some ((MinMaxHeap.foremost cmp side items place.descendants).map Place.node) := by
  have hfamily : 4 * place.node + 3 < UInt64.size := by
    have hle := place.le_count
    rw [addressable] at hn
    omega
  rw [foremost, descendants_eq hfamily, ← map_node_descendants]
  cases place.descendants with
  | nil => rfl
  | cons first others => exact foldlM_keep cmp side items first others

/-- A value sinks for less than `k` rounds if `4 ^ k` times its node is beyond the array. -/
theorem sink_eq (hn : addressable n) {k : Nat} (side : Side) (items : Vector α n)
    (place : Place n) (hk : n < 4 ^ k * place.node) :
    sink cmp side n k items.toArray place.node =
      some (MinMaxHeap.sink cmp side items place).toArray := by
  induction k generalizing items place with
  | zero => exact absurd place.le_count (by omega)
  | succ k ih =>
    rw [sink, foremost_eq cmp hn, MinMaxHeap.sink]
    cases MinMaxHeap.foremost cmp side items place.descendants with
    | none => rfl
    | some next =>
      simp only [Option.map_some, ahead_eq, exchange_eq, Option.bind_eq_bind, Option.bind_some]
      split
      · split
        · rename_i hgrand
          have hfour := four_mul_le_of_isGrandchild hgrand
          have hnext : n < 4 ^ k * next.node :=
            calc
              n < 4 ^ (k + 1) * place.node := hk
              _ = 4 ^ k * (4 * place.node) := by rw [Nat.pow_succ, Nat.mul_assoc]
              _ ≤ 4 ^ k * next.node := Nat.mul_le_mul_left _ hfour
          have habove : Node.parent next.node = (next.parent (Nat.le_trans (by decide)
              (Node.lt_of_isGrandchild hgrand).1)).node := rfl
          simp only [habove, ahead_eq, exchange_eq, Option.bind_some]
          split
          · exact ih _ next hnext
          · exact ih _ next hnext
        · rfl
      · rfl

theorem siftDown_eq (hn : addressable n) (items : Vector α n) (place : Place n) :
    siftDown cmp items.toArray place.node =
      some (MinMaxHeap.siftDown cmp items place).toArray := by
  rw [siftDown, sideOf_eq_of_place hn, items.size_toArray]
  have hrounds : n < 4 ^ rounds * place.node :=
    Nat.lt_of_lt_of_le (lt_four_pow_rounds hn) (Nat.le_mul_of_pos_right _ place.one_le)
  exact sink_eq cmp hn _ items place hrounds

/-! ## Extremes on guard -/

theorem extreme_eq (items : Vector α n) (side : Side) :
    extreme cmp items.toArray side =
      some ((MinMaxHeap.extreme cmp items side).map Place.node) := by
  have hleft : firstChild Node.root = some (Node.firstChild Node.root) :=
    firstChild_eq (by decide)
  have hright : secondChild Node.root = some (Node.secondChild Node.root) :=
    secondChild_eq (by decide)
  cases side with
  | low =>
    rw [extreme, items.size_toArray, MinMaxHeap.extreme]
    cases n with
    | zero => rfl
    | succ n => rfl
  | high =>
    rw [extreme, items.size_toArray, hleft, hright]
    rcases n with _ | _ | _ | n
    · rfl
    · rfl
    · rfl
    · let left : Place (n + 3) := ⟨Node.firstChild Node.root, by decide, Nat.le_add_left 2 (n + 1)⟩
      let right : Place (n + 3) := ⟨Node.secondChild Node.root, by decide, Nat.le_add_left 3 n⟩
      have hahead : ahead cmp .low items.toArray (Node.firstChild Node.root)
          (Node.secondChild Node.root) =
            some (cmp.less (items.get left.slot) (items.get right.slot)) :=
        ahead_eq cmp .low items left right
      rw [MinMaxHeap.extreme, dif_pos (Nat.le_add_left 3 n)]
      simp only [hahead, Option.bind_eq_bind, Option.bind_some, Option.map_some,
        apply_ite Place.node]
      rfl

/-- The last value takes the place of another, which is handed out. -/
theorem swapRemove_eq (items : Vector α n) (place last : Place n) (hlast : last.node = n) :
    swapRemove items.toArray place.slot =
      some (items.get place.slot, (MinMaxHeap.exchange items place last).pop.toArray) := by
  have hone : 1 ≤ items.toArray.size := by
    rw [items.size_toArray]
    exact Nat.le_trans place.one_le place.le_count
  have hslot : items.toArray.size - 1 = last.slot := by
    rw [items.size_toArray]
    exact congrArg (· - 1) hlast.symm
  rw [swapRemove, getElem?_slot, sub_eq hone, hslot]
  simp only [Option.bind_eq_bind, Option.bind_some, swapIfInBounds_eq]
  rfl

theorem removeAt_eq (hn : addressable n) (items : Vector α n) (place : Place n) :
    removeAt cmp items.toArray place.node =
      some (items.get place.slot, (MinMaxHeap.removeAt cmp items place).toArray) := by
  have hone : 1 ≤ n := Nat.le_trans place.one_le place.le_count
  have hrest : addressable (n - 1) := by
    rw [addressable] at hn ⊢
    omega
  let last : Place n := ⟨n, hone, Nat.le_refl n⟩
  rw [removeAt, slot_eq, MinMaxHeap.removeAt]
  simp only [Option.bind_eq_bind, Option.bind_some, swapRemove_eq items place last rfl,
    Vector.size_toArray]
  cases hhole : Place.ofNode? (n - 1) place.node with
  | none =>
    have hlt : n - 1 < place.node := (Place.ofNode?_eq_none place.one_le).mp hhole
    rw [if_neg (Nat.not_le_of_gt hlt)]
    rfl
  | some hole =>
    have hnode : hole.node = place.node := Place.ofNode?_eq_some.mp hhole
    rw [if_pos (hnode ▸ hole.le_count), ← hnode, siftDown_eq cmp hrest]
    rfl

end Arrays

end Guarded

end PrioritySampling
