import PrioritySampling.Proofs.Order
/-!
# Sinking restores the order

When the value at one place is new, every other place still heads its subtree.  The foremost of
the children and grandchildren then leads everything below, and may take the place.  If it was a
child, the values below it all equal it, so that the new value may stay there.  If it was a
grandchild, the new value goes to its place, or to that of the parent if it is on the wrong side
of it, and `InOrderBut` holds again two levels further down.
-/

namespace PrioritySampling

namespace MinMaxHeap

variable {α : Type} {n : Nat} {cmp : Comparator α}

/-! ## The foremost of several places -/

section Foremost

variable {side : Side} {items : Vector α n}

theorem foremost_eq_none {places : List (Place n)} :
    foremost cmp side items places = none ↔ places = [] := by
  cases places <;> simp [foremost]

theorem foremost_cons_cons (first next : Place n) (later : List (Place n)) :
    foremost cmp side items (first :: next :: later) =
      foremost cmp side items
        ((if side.ahead cmp (items.get next.slot) (items.get first.slot) then next else first) ::
          later) :=
  rfl

/-- The foremost place is one of them, and its value leads those of all. -/
theorem foremost_spec [Std.TransCmp cmp] {places : List (Place n)} {last : Place n}
    (h : foremost cmp side items places = some last) :
    last ∈ places ∧
      ∀ place ∈ places, side.leads cmp (items.get last.slot) (items.get place.slot) := by
  cases places with
  | nil => cases h
  | cons first later =>
    induction later generalizing first with
    | nil =>
      cases h
      refine ⟨List.mem_singleton.mpr rfl, fun place hplace => ?_⟩
      obtain rfl := List.mem_singleton.mp hplace
      exact Side.leads_refl _
    | cons next later ih =>
      rw [foremost_cons_cons] at h
      by_cases hahead : side.ahead cmp (items.get next.slot) (items.get first.slot) = true
      · rw [if_pos hahead] at h
        obtain ⟨hmem, hleads⟩ := ih next h
        refine ⟨List.mem_cons_of_mem _ hmem, ?_⟩
        rintro place (_ | ⟨_, hplace⟩)
        · exact Side.leads_trans (hleads next List.mem_cons_self) (Side.leads_of_ahead hahead)
        · exact hleads place hplace
      · rw [if_neg hahead] at h
        obtain ⟨hmem, hleads⟩ := ih first h
        have hfirst := hleads first List.mem_cons_self
        refine ⟨List.cons_subset_cons _ (List.subset_cons_self _ _) hmem, ?_⟩
        rintro place (_ | ⟨_, _ | ⟨_, hplace⟩⟩)
        · exact hfirst
        · exact Side.leads_trans hfirst (Side.leads_of_not_ahead hahead)
        · exact hleads place (List.mem_cons_of_mem _ hplace)

end Foremost

/-! ## One step down -/

section Step

variable {items : Vector α n} {place next : Place n}

/-- A place that holds both or none of two places under it does not notice their exchange. -/
theorem Heads.exchange {a b : Place n} (h : Heads cmp items place) (ha : place ≠ a)
    (hb : place ≠ b) (hboth : Node.Below place.node a.node ↔ Node.Below place.node b.node) :
    Heads cmp (exchange items a b) place := by
  intro other hbelow
  rw [Leads, get_exchange_of_ne ha hb]
  by_cases hoa : other = a
  · subst hoa
    rw [get_exchange_left]
    exact h b (hboth.mp hbelow)
  by_cases hob : other = b
  · subst hob
    rw [get_exchange_right]
    exact h a (hboth.mpr hbelow)
  · rw [get_exchange_of_ne hoa hob]
    exact h other hbelow

/-- All pairs are in order but those under one place, and that of this place with its parent. -/
def InOrderButEdge (cmp : Comparator α) (items : Vector α n) (above next : Place n) : Prop :=
  ∀ upper lower : Place n, Node.Below upper.node lower.node → upper ≠ next →
    (upper = above → lower ≠ next) → Leads cmp items upper lower

/-- A new value on the right side of its parent only has the values below it to mind. -/
theorem InOrderButEdge.inOrderBut {above : Place n} (h : InOrderButEdge cmp items above next)
    (hlead : (Side.ofNode above.node).leads cmp (items.get above.slot) (items.get next.slot)) :
    InOrderBut cmp items next := by
  intro upper hun lower hpair
  by_cases hedge : upper = above ∧ lower = next
  · obtain ⟨rfl, rfl⟩ := hedge
    exact hlead
  · exact h upper lower hpair hun fun hua hln => hedge ⟨hua, hln⟩

variable [Std.TransCmp cmp]

/-- What leads the children and grandchildren of a place leads everything below the place. -/
theorem InOrderBut.leads_below {value : α} {other : Place n} (h : InOrderBut cmp items place)
    (hvalue : ∀ next ∈ place.descendants,
      (Side.ofNode place.node).leads cmp value (items.get next.slot))
    (hbelow : Node.Below place.node other.node) :
    (Side.ofNode place.node).leads cmp value (items.get other.slot) := by
  rcases Place.mem_descendants_or_below hbelow with hmem | ⟨g, hmem, hgrand, hother⟩
  · exact hvalue other hmem
  · have hfour : 4 ≤ g.node := by
      have := place.one_le
      simp only [Node.grandparent] at hgrand
      omega
    have hside : Side.ofNode g.node = Side.ofNode place.node :=
      hgrand ▸ (Side.ofNode_grandparent hfour).symm
    have hne : g ≠ place :=
      Place.ne_of_below (Node.below_iff_grandparent.mpr (.inr (.inl hgrand)))
    have hlead := h g hne other hother
    rw [Leads, hside] at hlead
    exact Side.leads_trans (hvalue g hmem) hlead

theorem InOrderBut.inOrder (h : InOrderBut cmp items place)
    (hvalue : ∀ next ∈ place.descendants,
      (Side.ofNode place.node).leads cmp (items.get place.slot) (items.get next.slot)) :
    InOrder cmp items := by
  intro upper
  by_cases hupper : upper = place
  · subst hupper
    exact fun other hbelow => h.leads_below hvalue hbelow
  · exact h upper hupper

/-- After a value has moved up from below, the place it has moved to heads its subtree. -/
theorem heads_exchange (h : InOrderBut cmp items place)
    (hnext : Node.Below place.node next.node)
    (hforemost : ∀ other ∈ place.descendants,
      (Side.ofNode place.node).leads cmp (items.get next.slot) (items.get other.slot))
    (hahead :
      (Side.ofNode place.node).ahead cmp (items.get next.slot) (items.get place.slot) = true) :
    Heads cmp (exchange items next place) place := by
  intro other hbelow
  rw [Leads, get_exchange_right]
  by_cases hother : other = next
  · subst hother
    rw [get_exchange_left]
    exact Side.leads_of_ahead hahead
  · rw [get_exchange_of_ne hother (Place.ne_of_below hbelow)]
    exact h.leads_below hforemost hbelow

/-- If a child is the foremost, its exchange with the new value settles everything. -/
theorem InOrderBut.exchange_child (h : InOrderBut cmp items place)
    (hchild : Node.parent next.node = place.node)
    (hforemost : ∀ other ∈ place.descendants,
      (Side.ofNode place.node).leads cmp (items.get next.slot) (items.get other.slot))
    (hahead :
      (Side.ofNode place.node).ahead cmp (items.get next.slot) (items.get place.slot) = true) :
    InOrder cmp (exchange items next place) := by
  have hbelow : Node.Below place.node next.node := .child hchild
  intro upper
  by_cases hplace : upper = place
  · subst hplace
    exact heads_exchange h hbelow hforemost hahead
  by_cases hnext : upper = next
  · subst hnext
    -- All values below a foremost child are between it and it.
    intro other hother
    have htwo : 2 ≤ upper.node := by
      have := place.one_le
      simp only [Node.parent] at hchild
      omega
    have hside : Side.ofNode upper.node = (Side.ofNode place.node).flip := by
      rw [← hchild, Side.ofNode_parent htwo, Side.flip_flip]
    have hne := Place.ne_of_below (hbelow.trans hother)
    have hlead := h upper hplace other hother
    rw [Leads, hside, Side.leads_flip] at hlead
    rw [Leads, get_exchange_left, get_exchange_of_ne (Place.ne_of_below hother) hne,
      hside, Side.leads_flip]
    exact Side.leads_trans hlead (Side.leads_of_ahead hahead)
  · refine (h upper hplace).exchange hnext hplace ?_
    rw [Node.below_iff, hchild]
    constructor
    · rintro (heq | hupper)
      · exact absurd (Place.ext heq.symm) hplace
      · exact hupper
    · exact .inr

/-- If a grandchild is the foremost, its exchange with the new value leaves the new value to be
compared with its parent. -/
theorem InOrderBut.exchange_grandchild {above : Place n} (h : InOrderBut cmp items place)
    (habove : Node.parent next.node = above.node) (hplace : Node.parent above.node = place.node)
    (hforemost : ∀ other ∈ place.descendants,
      (Side.ofNode place.node).leads cmp (items.get next.slot) (items.get other.slot))
    (hahead :
      (Side.ofNode place.node).ahead cmp (items.get next.slot) (items.get place.slot) = true) :
    InOrderButEdge cmp (exchange items next place) above next := by
  have hchild : Node.Below place.node above.node := .child hplace
  have hnext : Node.Below above.node next.node := .child habove
  intro upper lower hpair hun hedge
  by_cases hup : upper = place
  · subst hup
    exact heads_exchange h (hchild.trans hnext) hforemost hahead lower hpair
  by_cases hua : upper = above
  · subst hua
    rw [Leads, get_exchange_of_ne hun hup,
      get_exchange_of_ne (hedge rfl) (Place.ne_of_below (hchild.trans hpair))]
    exact h upper hup lower hpair
  · refine (h upper hup).exchange hun hup ?_ lower hpair
    rw [Node.below_iff, Node.below_iff, habove, hplace]
    constructor
    · rintro (heq | heq | hupper)
      · exact absurd (Place.ext heq.symm) hua
      · exact absurd (Place.ext heq.symm) hup
      · exact hupper
    · exact fun hupper => .inr (.inr hupper)

/-- A new value on the wrong side of its parent changes places with it. -/
theorem InOrderButEdge.exchange_parent {above : Place n}
    (h : InOrderButEdge cmp items above next) (habove : Node.parent next.node = above.node)
    (hahead :
      (Side.ofNode above.node).ahead cmp (items.get next.slot) (items.get above.slot) = true) :
    InOrderBut cmp (exchange items next above) next := by
  have hlead : (Side.ofNode above.node).leads cmp (items.get next.slot) (items.get above.slot) :=
    Side.leads_of_ahead hahead
  intro upper hun
  by_cases hua : upper = above
  · subst hua
    intro lower hpair
    rw [Leads, get_exchange_right]
    by_cases hln : lower = next
    · subst hln
      rwa [get_exchange_left]
    · rw [get_exchange_of_ne hln (Place.ne_of_below hpair)]
      exact Side.leads_trans hlead (h upper lower hpair hun fun _ => hln)
  · have hheads : Heads cmp items upper :=
      fun lower hpair => h upper lower hpair hun fun heq => absurd heq hua
    refine hheads.exchange hun hua ?_
    rw [Node.below_iff, habove]
    constructor
    · rintro (heq | hupper)
      · exact absurd (Place.ext heq.symm) hua
      · exact hupper
    · exact .inr

end Step

/-! ## All steps -/

section Sink

variable [Std.TransCmp cmp] {items : Vector α n} {place : Place n}

theorem exchange_isGrandchild {side : Side} {next : Place n}
    (hside : Side.ofNode place.node = side) (h : InOrderBut cmp items place)
    (hgrand : Node.isGrandchild place.node next.node = true)
    (hsome : foremost cmp side items place.descendants = some next)
    (hahead : side.ahead cmp (items.get next.slot) (items.get place.slot) = true) :
    InOrderButEdge cmp (exchange items next place)
      (next.parent (Nat.le_trans (by decide) (Node.lt_of_isGrandchild hgrand).1)) next := by
  have hplace := (Node.isGrandchild_iff place.one_le).mp hgrand
  subst hside
  refine h.exchange_grandchild rfl ?_ (foremost_spec hsome).2 hahead
  rw [Place.parent, Node.parent_parent, hplace]

/-- The value at a place sinks until it heads its subtree. -/
theorem sink_inOrder {side : Side} (hside : Side.ofNode place.node = side)
    (h : InOrderBut cmp items place) : InOrder cmp (sink cmp side items place) := by
  fun_induction sink cmp side items place with
  | case1 items place hnone =>
    refine h.inOrder fun next hnext => ?_
    rw [foremost_eq_none.mp hnone] at hnext
    cases hnext
  | case2 items place next hsome hahead items' hgrand above hwrong ih =>
    have hnext := (Side.ofNode_of_isGrandchild hgrand).trans hside
    have habove : Side.ofNode above.node = side.flip :=
      hside ▸ Side.ofNode_parent_of_isGrandchild hgrand
    have hedge := exchange_isGrandchild hside h hgrand hsome hahead
    rw [← habove] at hwrong
    exact ih hnext (hedge.exchange_parent rfl hwrong)
  | case3 items place next hsome hahead items' hgrand above hright ih =>
    have hnext := (Side.ofNode_of_isGrandchild hgrand).trans hside
    have habove : Side.ofNode above.node = side.flip :=
      hside ▸ Side.ofNode_parent_of_isGrandchild hgrand
    have hedge := exchange_isGrandchild hside h hgrand hsome hahead
    rw [← habove] at hright
    exact ih hnext (hedge.inOrderBut (Side.leads_of_not_ahead hright))
  | case4 items place next hsome hahead items' hchild =>
    obtain ⟨hmem, hforemost⟩ := foremost_spec hsome
    rw [Node.isGrandchild_iff place.one_le] at hchild
    have hparent := (Place.mem_descendants.mp hmem).resolve_right hchild
    subst hside
    exact h.exchange_child hparent hforemost hahead
  | case5 items place next hsome hahead =>
    obtain ⟨-, hforemost⟩ := foremost_spec hsome
    subst hside
    exact h.inOrder fun other hother =>
      Side.leads_trans (Side.leads_of_not_ahead hahead) (hforemost other hother)

theorem siftDown_inOrder (h : InOrderBut cmp items place) :
    InOrder cmp (siftDown cmp items place) :=
  sink_inOrder rfl h

end Sink

end MinMaxHeap

end PrioritySampling
