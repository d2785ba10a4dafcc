/-!
# Directories

A directory holds entries under names, in the order of the names.
-/

namespace PrioritySampling

/-- Entries with their names. -/
structure Directory (β : Type) where
  entries : List (String × β)

namespace Directory

variable {β : Type}

/-- No entries. -/
def empty : Directory β :=
  ⟨[]⟩

/-- The entry under a name. -/
def find? (directory : Directory β) (name : String) : Option β :=
  directory.entries.lookup name

/-- An entry put before the first one with a greater name, in place of one of the same name. -/
def insertEntry (name : String) (entry : β) : List (String × β) → List (String × β)
  | [] => [(name, entry)]
  | (other, held) :: later =>
    if name = other then (name, entry) :: later
    else if name < other then (name, entry) :: (other, held) :: later
    else (other, held) :: insertEntry name entry later

/-- Puts an entry under a name, in place of any other. -/
def put (name : String) (entry : β) (directory : Directory β) : Directory β :=
  ⟨insertEntry name entry directory.entries⟩

/-- Takes the entry under a name out. -/
def erase (name : String) (directory : Directory β) : Directory β :=
  ⟨directory.entries.filter (·.1 ≠ name)⟩

/-- What has been put under a name is found there. -/
theorem find?_put_self (name : String) (entry : β) (directory : Directory β) :
    (directory.put name entry).find? name = some entry := by
  obtain ⟨entries⟩ := directory
  simp only [put, find?]
  induction entries with
  | nil => simp [insertEntry]
  | cons head later ih =>
    obtain ⟨other, held⟩ := head
    by_cases heq : name = other
    · simp [insertEntry, heq]
    · by_cases hlt : name < other
      · simp [insertEntry, heq, hlt]
      · have hbeq : (name == other) = false := beq_false_of_ne heq
        simpa [insertEntry, heq, hlt, List.lookup_cons, hbeq] using ih

/-- Every other entry stays where it was. -/
theorem find?_put_of_ne {name other : String} (h : other ≠ name) (entry : β)
    (directory : Directory β) : (directory.put name entry).find? other = directory.find? other := by
  obtain ⟨entries⟩ := directory
  have hname : (other == name) = false := beq_false_of_ne h
  simp only [put, find?]
  induction entries with
  | nil => simp [insertEntry, List.lookup_cons, hname]
  | cons head later ih =>
    obtain ⟨first, held⟩ := head
    by_cases heq : name = first
    · subst heq
      simp [insertEntry, List.lookup_cons, hname]
    · by_cases hlt : name < first
      · simp [insertEntry, heq, hlt, List.lookup_cons, hname]
      · simp only [insertEntry, heq, hlt, if_false, List.lookup_cons, ih]

theorem find?_erase_self (name : String) (directory : Directory β) :
    (directory.erase name).find? name = none := by
  rw [erase, find?, List.lookup_eq_none_iff]
  intro entry hentry
  have hne : entry.1 ≠ name := of_decide_eq_true (List.mem_filter.mp hentry).2
  exact bne_iff_ne.mpr hne.symm

theorem find?_erase_of_ne {name other : String} (h : other ≠ name) (directory : Directory β) :
    (directory.erase name).find? other = directory.find? other := by
  obtain ⟨entries⟩ := directory
  simp only [erase, find?]
  induction entries with
  | nil => rfl
  | cons head later ih =>
    obtain ⟨first, held⟩ := head
    by_cases heq : first = name
    · subst heq
      have hother : (other == first) = false := beq_false_of_ne h
      simp only [List.filter_cons, ne_eq, not_true_eq_false, decide_false, Bool.false_eq_true,
        if_false, List.lookup_cons, hother, ih]
    · simp only [List.filter_cons, heq, ne_eq, not_false_eq_true, decide_true, if_true,
        List.lookup_cons, ih]

end Directory

end PrioritySampling
