import Mathlib.Algebra.Ring.Nat
import Mathlib.Data.List.Basic
import PrioritySampling.Directory
/-!
# The entries of a directory

A directory that has been filled by `put` lists its names in rising order, so that no name comes
twice.  Whatever is added up over all entries can then be followed through every change: the
entries after `put` are the new one and those under the other names, and the entries before it
were the old one, if there was any, and the same others.
-/

namespace PrioritySampling

namespace Directory

variable {β : Type} {name : String} {entry held : β} {directory : Directory β}

/-- The names rise. -/
def Sorted (directory : Directory β) : Prop :=
  directory.entries.Pairwise (·.1 < ·.1)

theorem sorted_empty : (empty : Directory β).Sorted :=
  .nil

/-! ## What holds of every entry -/

/-- What holds of all entries after `put` holds of the new one and of those under other names. -/
theorem forall_find?_put {P : String → β → Prop} (hentry : P name entry)
    (hothers : ∀ other held, other ≠ name → directory.find? other = some held → P other held) :
    ∀ other held, (directory.put name entry).find? other = some held → P other held := by
  intro other held hheld
  by_cases heq : other = name
  · subst heq
    rw [find?_put_self] at hheld
    cases hheld
    exact hentry
  · rw [find?_put_of_ne heq] at hheld
    exact hothers other held heq hheld

theorem forall_find?_erase {P : String → β → Prop}
    (hothers : ∀ other held, other ≠ name → directory.find? other = some held → P other held) :
    ∀ other held, (directory.erase name).find? other = some held → P other held := by
  intro other held hheld
  by_cases heq : other = name
  · subst heq
    rw [find?_erase_self] at hheld
    cases hheld
  · rw [find?_erase_of_ne heq] at hheld
    exact hothers other held heq hheld

/-! ## Putting and erasing -/

theorem mem_of_mem_insertEntry {entries : List (String × β)} {pair : String × β}
    (h : pair ∈ insertEntry name entry entries) : pair = (name, entry) ∨ pair ∈ entries := by
  induction entries with
  | nil => exact .inl (List.mem_singleton.mp h)
  | cons head later ih =>
    obtain ⟨other, held⟩ := head
    rw [insertEntry] at h
    split at h
    · rcases List.mem_cons.mp h with hpair | hpair
      · exact .inl hpair
      · exact .inr (List.mem_cons_of_mem _ hpair)
    · split at h
      · exact List.mem_cons.mp h
      · rcases List.mem_cons.mp h with hpair | hpair
        · exact .inr (hpair ▸ List.mem_cons_self)
        · exact (ih hpair).imp_right (List.mem_cons_of_mem _)

theorem lt_of_not_lt {a b : String} (hne : a ≠ b) (h : ¬ a < b) : b < a := by
  by_contra hnot
  exact hne (String.le_antisymm (String.not_lt.mp hnot) (String.not_lt.mp h))

theorem Sorted.put (h : directory.Sorted) (name : String) (entry : β) :
    (directory.put name entry).Sorted := by
  obtain ⟨entries⟩ := directory
  unfold Sorted Directory.put at *
  induction entries with
  | nil => exact List.pairwise_singleton _ _
  | cons head later ih =>
    obtain ⟨other, held⟩ := head
    obtain ⟨hhead, hlater⟩ := List.pairwise_cons.mp h
    rw [insertEntry]
    split
    · rename_i heq
      exact List.pairwise_cons.mpr ⟨heq ▸ hhead, hlater⟩
    · rename_i hne
      split
      · rename_i hlt
        refine List.pairwise_cons.mpr ⟨fun pair hpair => ?_, h⟩
        rcases List.mem_cons.mp hpair with rfl | hpair
        · exact hlt
        · exact String.lt_trans hlt (hhead pair hpair)
      · rename_i hnot
        refine List.pairwise_cons.mpr ⟨fun pair hpair => ?_, ih hlater⟩
        rcases mem_of_mem_insertEntry hpair with rfl | hpair
        · exact lt_of_not_lt hne hnot
        · exact hhead pair hpair

theorem Sorted.erase (h : directory.Sorted) (name : String) : (directory.erase name).Sorted :=
  List.Pairwise.filter _ h

/-- Names that all come after a given one are other names. -/
theorem filter_ne_of_lt {entries : List (String × β)} (h : ∀ pair ∈ entries, name < pair.1) :
    entries.filter (·.1 ≠ name) = entries := by
  refine List.filter_eq_self.mpr fun pair hpair => decide_eq_true ?_
  intro heq
  have hlt := h pair hpair
  rw [heq] at hlt
  exact String.lt_irrefl name hlt

theorem filter_ne_cons_of_ne {other : String} {later : List (String × β)} (h : name ≠ other) :
    ((other, held) :: later).filter (·.1 ≠ name) =
      (other, held) :: later.filter (·.1 ≠ name) :=
  List.filter_cons_of_pos (decide_eq_true h.symm)

/-- After `put` there are the new entry and those under the other names. -/
theorem Sorted.perm_put (h : directory.Sorted) (name : String) (entry : β) :
    (directory.put name entry).entries.Perm
      ((name, entry) :: (directory.erase name).entries) := by
  obtain ⟨entries⟩ := directory
  unfold Sorted at h
  unfold Directory.put Directory.erase
  induction entries with
  | nil => exact .refl _
  | cons head later ih =>
    obtain ⟨other, held⟩ := head
    obtain ⟨hhead, hlater⟩ := List.pairwise_cons.mp h
    show (insertEntry name entry ((other, held) :: later)).Perm
      ((name, entry) :: ((other, held) :: later).filter (·.1 ≠ name))
    rw [insertEntry]
    split
    · rename_i heq
      subst heq
      rw [List.filter_cons_of_neg (by simp), filter_ne_of_lt hhead]
    · rename_i hne
      split
      · rename_i hlt
        have hall : ∀ pair ∈ (other, held) :: later, name < pair.1 := by
          intro pair hpair
          rcases List.mem_cons.mp hpair with rfl | hpair
          · exact hlt
          · exact String.lt_trans hlt (hhead pair hpair)
        rw [filter_ne_of_lt hall]
      · rw [filter_ne_cons_of_ne hne]
        exact ((ih hlater).cons (other, held)).trans (.swap _ _ _)

/-! ## Looking up -/

/-- What is found under a name is one of the entries, and the others have other names. -/
theorem Sorted.perm_of_find? (h : directory.Sorted) (hfind : directory.find? name = some held) :
    directory.entries.Perm ((name, held) :: (directory.erase name).entries) := by
  obtain ⟨entries⟩ := directory
  unfold Sorted at h
  unfold find? at hfind
  unfold Directory.erase
  induction entries with
  | nil => cases hfind
  | cons head later ih =>
    obtain ⟨other, first⟩ := head
    obtain ⟨hhead, hlater⟩ := List.pairwise_cons.mp h
    show ((other, first) :: later).Perm
      ((name, held) :: ((other, first) :: later).filter (·.1 ≠ name))
    by_cases heq : name = other
    · subst heq
      rw [List.lookup_cons_self] at hfind
      cases hfind
      rw [List.filter_cons_of_neg (by simp), filter_ne_of_lt hhead]
    · rw [List.lookup_cons, beq_false_of_ne heq] at hfind
      rw [filter_ne_cons_of_ne heq]
      exact ((ih hlater hfind).cons (other, first)).trans (.swap _ _ _)

/-- Erasing a name that is not there changes nothing. -/
theorem erase_of_find?_eq_none (hfind : directory.find? name = none) :
    directory.erase name = directory := by
  obtain ⟨entries⟩ := directory
  have hnames := List.lookup_eq_none_iff.mp hfind
  refine congrArg Directory.mk (List.filter_eq_self.mpr fun pair hpair => decide_eq_true ?_)
  exact fun heq => bne_iff_ne.mp (hnames pair hpair) heq.symm

/-- Every entry is found under its name. -/
theorem Sorted.find?_of_mem (h : directory.Sorted) (hmem : (name, entry) ∈ directory.entries) :
    directory.find? name = some entry := by
  obtain ⟨entries⟩ := directory
  unfold Sorted at h
  unfold find?
  induction entries with
  | nil => cases hmem
  | cons head later ih =>
    obtain ⟨other, first⟩ := head
    obtain ⟨hhead, hlater⟩ := List.pairwise_cons.mp h
    rcases List.mem_cons.mp hmem with heq | hmem
    · obtain ⟨rfl, rfl⟩ := Prod.mk.inj heq
      exact List.lookup_cons_self
    · have hne : name ≠ other := fun heq =>
        String.lt_irrefl name (heq ▸ hhead (name, entry) hmem)
      rw [List.lookup_cons, beq_false_of_ne hne]
      exact ih hlater hmem

/-- A directory in which nothing is found has no entries. -/
theorem Sorted.entries_eq_nil (h : directory.Sorted) (hnone : ∀ name, directory.find? name = none) :
    directory.entries = [] := by
  refine List.eq_nil_iff_forall_not_mem.mpr fun (name, entry) hmem => ?_
  have hfind := h.find?_of_mem hmem
  rw [hnone name] at hfind
  cases hfind

/-! ## All entries together -/

section FlatMap

variable {γ : Type} (f : String × β → List γ)

theorem Sorted.flatMap_put (h : directory.Sorted) (name : String) (entry : β) :
    ((directory.put name entry).entries.flatMap f).Perm
      (f (name, entry) ++ (directory.erase name).entries.flatMap f) :=
  (h.perm_put name entry).flatMap_right f

theorem Sorted.flatMap_of_find? (h : directory.Sorted)
    (hfind : directory.find? name = some held) :
    (directory.entries.flatMap f).Perm
      (f (name, held) ++ (directory.erase name).entries.flatMap f) :=
  (h.perm_of_find? hfind).flatMap_right f

/-- What is read off the entry of one name does not show once that is erased. -/
theorem flatMap_erase_congr {f g : String × β → List γ}
    (hfg : ∀ pair, pair.1 ≠ name → f pair = g pair) :
    (directory.erase name).entries.flatMap f = (directory.erase name).entries.flatMap g := by
  refine List.flatMap_congr fun pair hpair => hfg pair ?_
  exact of_decide_eq_true (List.mem_filter.mp hpair).2

end FlatMap

section Sum

variable (f : String × β → Nat)

theorem Sorted.sum_put (h : directory.Sorted) (name : String) (entry : β) :
    ((directory.put name entry).entries.map f).sum =
      f (name, entry) + ((directory.erase name).entries.map f).sum := by
  rw [((h.perm_put name entry).map f).sum_nat, List.map_cons, List.sum_cons]

theorem Sorted.sum_of_find? (h : directory.Sorted) (hfind : directory.find? name = some held) :
    (directory.entries.map f).sum =
      f (name, held) + ((directory.erase name).entries.map f).sum := by
  rw [((h.perm_of_find? hfind).map f).sum_nat, List.map_cons, List.sum_cons]

end Sum

end Directory

end PrioritySampling
