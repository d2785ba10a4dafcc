import PrioritySampling.Comparator
import PrioritySampling.Node
/-!
# Restoring min-max order

An array is in min-max order when every node on a level of least values comes no later than
any node below it, and every node on a level of greatest values comes no earlier.  The two
kinds of level differ only in the direction of every comparison, so each step is written once,
for a `Side` of the order.

`siftUp` repairs an array whose last value is new: the value first finds out to which of its
two lines of ancestors it belongs, then climbs that line.  `siftDown` repairs an array in which
one node has a new value: the value sinks along the most extreme of the children and
grandchildren.  Neither asks the comparator to be consistent; both end because the node number
falls, or rises within the array.
-/

namespace PrioritySampling

/-- One of the two ends of an order. -/
inductive Side where
  /-- The end of least values. -/
  | low
  /-- The end of greatest values. -/
  | high
  deriving DecidableEq, Repr

namespace Side

/-- The other end. -/
def flip : Side → Side
  | low => high
  | high => low

/-- `a` is strictly nearer to this end than `b`. -/
def ahead {α : Type} (cmp : Comparator α) : Side → α → α → Bool
  | low => cmp.less
  | high => cmp.greater

/-- The end whose values the level of a node holds. -/
def ofNode (node : Nat) : Side :=
  if Node.onMinLevel node then low else high

@[simp]
theorem flip_flip (side : Side) : side.flip.flip = side := by
  cases side <;> rfl

end Side

namespace MinMaxHeap

variable {α : Type} {n : Nat} (cmp : Comparator α)

/-- The array with the values of two nodes exchanged. -/
def exchange (items : Vector α n) (a b : Place n) : Vector α n :=
  items.swap a.slot b.slot a.slot.isLt b.slot.isLt

/-- Lets the value at a node climb from grandparent to grandparent while it is ahead. -/
def climb (side : Side) (items : Vector α n) (place : Place n) : Vector α n :=
  if h : 4 ≤ place.node then
    let above := place.grandparent h
    if side.ahead cmp (items.get place.slot) (items.get above.slot) then
      climb side (exchange items place above) above
    else
      items
  else
    items
termination_by place.node
decreasing_by
  simp only [Place.grandparent, Node.grandparent]
  omega

/-- Moves the value at a node up to where it belongs.  A value that is on the wrong side of
its parent changes places with it and climbs on the parent's side, any other on its own. -/
def siftUp (items : Vector α n) (place : Place n) : Vector α n :=
  if h : 2 ≤ place.node then
    let side := Side.ofNode place.node
    let above := place.parent h
    if side.flip.ahead cmp (items.get place.slot) (items.get above.slot) then
      climb cmp side.flip (exchange items place above) above
    else
      climb cmp side items place
  else
    items

/-- The node that is ahead of all others in a list, the first such if several are. -/
def foremost (side : Side) (items : Vector α n) : List (Place n) → Option (Place n)
  | [] => none
  | first :: others =>
    some (others.foldl (fun best place =>
      if side.ahead cmp (items.get place.slot) (items.get best.slot) then place else best) first)

/-- Lets the value at a node sink while one of its children and grandchildren is ahead of it.
After a step of two levels the value may stand on the wrong side of its new parent; then the
two change places and the former parent value sinks on. -/
def sink (side : Side) (items : Vector α n) (place : Place n) : Vector α n :=
  match foremost cmp side items place.descendants with
  | none => items
  | some next =>
    if side.ahead cmp (items.get next.slot) (items.get place.slot) then
      let items := exchange items next place
      if h : Node.isGrandchild place.node next.node = true then
        let above := next.parent
          (Nat.le_trans (by decide) (Node.lt_of_isGrandchild h).1)
        if side.flip.ahead cmp (items.get next.slot) (items.get above.slot) then
          sink side (exchange items next above) next
        else
          sink side items next
      else
        items
    else
      items
termination_by n - place.node
decreasing_by
  all_goals
    have := (Node.lt_of_isGrandchild h).2
    have := next.le_count
    omega

/-- Moves the value at a node down to where it belongs, on the side of the node's level. -/
def siftDown (items : Vector α n) (place : Place n) : Vector α n :=
  sink cmp (Side.ofNode place.node) items place

/-- The node with the most extreme value on a side: the root on one, and one of its children,
if it has any, on the other. -/
def extreme (items : Vector α n) : Side → Option (Place n)
  | .low => Place.ofNode? n Node.root
  | .high =>
    if h : 3 ≤ n then
      let left : Place n := ⟨Node.firstChild Node.root, by decide, Nat.le_trans (by decide) h⟩
      let right : Place n := ⟨Node.secondChild Node.root, by decide, h⟩
      some (if cmp.less (items.get left.slot) (items.get right.slot) then right else left)
    else
      Place.ofNode? n (Node.firstChild Node.root) <|> Place.ofNode? n Node.root

/-- The array without the value at a node: the last value takes its place and sinks. -/
def removeAt (items : Vector α n) (place : Place n) : Vector α (n - 1) :=
  let last : Place n := ⟨n, Nat.le_trans place.one_le place.le_count, Nat.le_refl n⟩
  let rest := (exchange items place last).pop
  match Place.ofNode? (n - 1) place.node with
  | none => rest
  | some hole => siftDown cmp rest hole

end MinMaxHeap

end PrioritySampling
