import Mathlib.Logic.Function.Iterate
import PrioritySampling.Proofs.Guarded
/-!
# The levels of the tree

Nothing is stored of the tree but the numbers of its nodes.  The heap gets from a node to its
family by products and quotients, and to the side of its level by counting the leading zeros of a
word, so the two have to tell of the same tree.  What brings them together is that some number of
steps to the parent divides a node by a power of two, and that the depth is the one exponent for
which the quotient is 1.

The family is listed in two spans, the children before the grandchildren, and the list is closed
at the first number beyond the end.  Nothing is lost by this, as the numbers rise from the one
span to the other as well.
-/

namespace PrioritySampling

namespace Node

variable {node steps : Nat}

/-! ## Depth -/

/-- The depth is the whole part of the binary logarithm. -/
theorem depth_eq_iff (h : 1 ≤ node) :
    depth node = steps ↔ 2 ^ steps ≤ node ∧ node < 2 ^ (steps + 1) :=
  Nat.log2_eq_iff (Nat.ne_of_gt h)

/-- The leading zeros of a node and its depth make up a word, but for the leading one. -/
theorem clz_add_depth (hone : 1 ≤ node) (hword : node < UInt64.size) :
    (BitVec.ofNat 64 node).clz.toNat + depth node = 63 := by
  have hnode : (BitVec.ofNat 64 node).toNat = node := by
    rw [BitVec.toNat_ofNat]
    exact Nat.mod_eq_of_lt hword
  have hne : BitVec.ofNat 64 node ≠ 0#64 := by
    intro hzero
    rw [hzero] at hnode
    exact Nat.ne_of_lt hone hnode
  have hlt : (BitVec.ofNat 64 node).clz.toNat < 64 :=
    BitVec.lt_def.mp (BitVec.clz_lt_iff_ne_zero.mpr hne)
  have hlow := BitVec.two_pow_sub_clz_le_toNat_of_ne_zero (by decide) hne
  have hhigh := BitVec.toNat_lt_two_pow_sub_clz (x := BitVec.ofNat 64 node)
  rw [hnode] at hlow hhigh
  generalize (BitVec.ofNat 64 node).clz.toNat = zeros at hlt hlow hhigh ⊢
  have hexponent : 64 - zeros = 63 - zeros + 1 := by omega
  rw [hexponent] at hhigh
  have hdepth := (depth_eq_iff hone).mpr ⟨hlow, hhigh⟩
  omega

/-- From a node to its children the levels change their end. -/
theorem onMinLevel_eq_not_parent (h : 2 ≤ node) : onMinLevel node = !onMinLevel (parent node) := by
  have hdepth := depth_parent h
  rw [Bool.eq_iff_iff, Bool.not_eq_true']
  simp only [onMinLevel, beq_iff_eq, beq_eq_false_iff_ne]
  omega

/-! ## Steps to the parent -/

theorem iterate_parent (steps node : Nat) : parent^[steps] node = node / 2 ^ steps := by
  induction steps with
  | zero => exact (Nat.div_one node).symm
  | succ steps ih =>
    rw [Function.iterate_succ_apply', ih, parent, Nat.div_div_eq_div_mul, Nat.pow_succ]

/-- The root is as many steps away as the depth says. -/
theorem iterate_parent_eq_root_iff (h : 1 ≤ node) :
    parent^[steps] node = root ↔ steps = depth node := by
  have hpos := Nat.two_pow_pos steps
  rw [iterate_parent, root, Nat.div_eq_iff hpos, eq_comm (a := steps), depth_eq_iff h,
    Nat.pow_succ]
  omega

/-- What lies above a node is where some number of steps to the parent leads. -/
theorem below_iff_exists_iterate {a d : Nat} :
    Below a d ↔ ∃ steps, parent^[steps + 1] d = a := by
  constructor
  · intro h
    induction h with
    | child h => exact ⟨0, h⟩
    | deeper _ ih =>
      obtain ⟨steps, hsteps⟩ := ih
      exact ⟨steps + 1, hsteps⟩
  · rintro ⟨steps, hsteps⟩
    induction steps generalizing d with
    | zero => exact .child hsteps
    | succ steps ih => exact .deeper (ih hsteps)

/-- Steps beyond the root lead to 0, all of them, so that those up to the first of these tell what
lies above. -/
theorem below_iff_exists_le {a d : Nat} :
    Below a d ↔ ∃ steps ≤ depth d, parent^[steps + 1] d = a := by
  rw [below_iff_exists_iterate]
  constructor
  · rintro ⟨steps, rfl⟩
    by_cases hle : steps ≤ depth d
    · exact ⟨steps, hle, rfl⟩
    · have hbeyond : ∀ more, depth d ≤ more → parent^[more + 1] d = 0 := by
        intro more hmore
        have hlt : d < 2 ^ (depth d + 1) := Nat.lt_log2_self
        rw [iterate_parent]
        exact Nat.div_eq_of_lt
          (Nat.lt_of_lt_of_le hlt (Nat.pow_le_pow_right (by decide) (Nat.succ_le_succ hmore)))
      refine ⟨depth d, Nat.le_refl _, ?_⟩
      rw [hbeyond _ (Nat.le_refl _), hbeyond steps (Nat.le_of_not_le hle)]
  · rintro ⟨steps, -, hsteps⟩
    exact ⟨steps, hsteps⟩

instance (a d : Nat) : Decidable (Below a d) :=
  decidable_of_iff _ below_iff_exists_le.symm

/-! ## The family of a node -/

/-- The grandchildren of a node are the four numbers from its quadruple on. -/
theorem isGrandchild_iff_bounds (h : 1 ≤ node) {d : Nat} :
    isGrandchild node d = true ↔ 4 * node ≤ d ∧ d ≤ 4 * node + 3 := by
  rw [isGrandchild_iff h, grandparent]
  omega

/-- A node whose grandchildren can be numbered by words, in a tree of any size.  Its descendants
are listed in rising order, and all children and grandchildren that exist are among them.  The
test for grandchildren tells the same.  Depth, as it is read off the leading zeros, is the whole
part of the logarithm.  Each generation lies one level deeper, where the side changes, and the
root is as many generations away as the depth says. -/
theorem kinship_of_node (hone : 1 ≤ node) (hword : 4 * node + 3 < UInt64.size) (count : Nat) :
    (Guarded.descendants node count = some (descendants node count) ∧
      (descendants node count).Pairwise (· < ·) ∧
      ∀ d, d ∈ descendants node count ↔
        d ≤ count ∧ (parent d = node ∨ grandparent d = node) ∧ node < d) ∧
    (∀ d, (isGrandchild node d = true ↔ parent (parent d) = node ∧ 4 ≤ d) ∧
      (isGrandchild node d = true ↔ 4 * node ≤ d ∧ d ≤ 4 * node + 3)) ∧
    (Guarded.depth node = some (depth node) ∧
      (BitVec.ofNat 64 node).clz.toNat + depth node = 63 ∧
      2 ^ depth node ≤ node ∧ node < 2 ^ (depth node + 1)) ∧
    (∀ d, parent d = node → depth d = depth node + 1 ∧ onMinLevel d = !onMinLevel node) ∧
    (∀ d, grandparent d = node → depth d = depth node + 2 ∧ onMinLevel d = onMinLevel node) ∧
    ∀ steps, parent^[steps] node = root ↔ steps = depth node := by
  have hlt : node < UInt64.size := by omega
  have hchild : ∀ c d, 1 ≤ c → parent d = c →
      depth d = depth c + 1 ∧ onMinLevel d = !onMinLevel c := by
    rintro c d hc rfl
    have htwo : 2 ≤ d := by
      simp only [parent] at hc
      omega
    exact ⟨(depth_parent htwo).symm, onMinLevel_eq_not_parent htwo⟩
  refine ⟨⟨Guarded.descendants_eq hword, ?_, fun d => ?_⟩, fun d => ⟨?_, ?_⟩,
    ⟨Guarded.depth_eq hone hlt, clz_add_depth hone hlt, (depth_eq_iff hone).mp rfl⟩,
    fun d => hchild node d hone, fun d hd => ?_, fun steps => iterate_parent_eq_root_iff hone⟩
  · exact (family_pairwise hone).sublist (List.takeWhile_sublist _)
  · rw [mem_descendants hone]
    simp only [parent, grandparent]
    omega
  · rw [isGrandchild_iff hone, parent_parent, grandparent]
    omega
  · exact isGrandchild_iff_bounds hone
  · have hparent : 1 ≤ parent d := by
      simp only [parent, grandparent] at hd ⊢
      omega
    obtain ⟨hdepth, hside⟩ := hchild (parent d) d hparent rfl
    obtain ⟨hdepth', hside'⟩ := hchild node (parent d) hone (by rw [parent_parent, hd])
    rw [hdepth, hdepth', hside, hside', Bool.not_not]
    exact ⟨rfl, rfl⟩

/-- The last node whose grandchildren can be numbered, in a tree that ends among these. -/
theorem kinship_of_node_last :
    let node := 2 ^ 62 - 1
    4 * node + 3 < UInt64.size ∧
      Guarded.descendants node (2 ^ 64 - 3) = some (descendants node (2 ^ 64 - 3)) ∧
      (2 ^ 64 - 3 ∈ descendants node (2 ^ 64 - 3)) ∧ 2 ^ 64 - 2 ∉ descendants node (2 ^ 64 - 3) ∧
      onMinLevel (2 ^ 64 - 1) = onMinLevel node ∧ parent^[61] node = root := by
  intro node
  have hword : 4 * node + 3 < UInt64.size := by decide
  obtain ⟨⟨hlist, -, hmem⟩, -, -, -, hgrandchild, hroot⟩ :=
    kinship_of_node (by decide) hword (2 ^ 64 - 3)
  refine ⟨hword, hlist, (hmem _).mpr (by decide), fun h => ?_, (hgrandchild _ (by decide)).2,
    (hroot 61).mpr (by decide)⟩
  exact absurd ((hmem _).mp h).1 (by decide)

end Node

end PrioritySampling
