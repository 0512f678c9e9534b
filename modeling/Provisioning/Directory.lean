/-!
# Directories

Values under names, in the strict order of the names (by code point, which is also the order of their
UTF-8 bytes). The view of a directory is the look-up `Directory.get?`; `get?_insert` and `get?_erase` say
what the two changes do to it.
-/

namespace Provisioning

/-- Sets the value under a name in a list that is sorted by its names. -/
def insertSorted {α : Type} (name : String) (value : α) : List (String × α) → List (String × α)
  | [] => [(name, value)]
  | (k, v) :: rest =>
    if name < k then (name, value) :: (k, v) :: rest
    else if name = k then (name, value) :: rest
    else (k, v) :: insertSorted name value rest

theorem mem_insertSorted {α : Type} {name : String} {value : α} {entries : List (String × α)}
    {e : String × α} (h : e ∈ insertSorted name value entries) : e = (name, value) ∨ e ∈ entries := by
  induction entries with
  | nil => simp [insertSorted] at h; simp [h]
  | cons x rest ih =>
    obtain ⟨k, v⟩ := x
    unfold insertSorted at h
    split at h
    · rcases List.mem_cons.1 h with rfl | h
      · exact .inl rfl
      · exact .inr h
    · split at h
      · rcases List.mem_cons.1 h with rfl | h
        · exact .inl rfl
        · exact .inr (List.mem_cons_of_mem _ h)
      · rcases List.mem_cons.1 h with rfl | h
        · exact .inr List.mem_cons_self
        · exact (ih h).imp_right (List.mem_cons_of_mem _)

/-- Setting a value keeps the names in strict order. -/
theorem pairwise_insertSorted {α : Type} (name : String) (value : α) {entries : List (String × α)}
    (h : entries.Pairwise (fun a b => a.1 < b.1)) :
    (insertSorted name value entries).Pairwise (fun a b => a.1 < b.1) := by
  induction entries with
  | nil => simp [insertSorted]
  | cons x rest ih =>
    obtain ⟨k, v⟩ := x
    obtain ⟨hk, hrest⟩ := List.pairwise_cons.1 h
    unfold insertSorted
    split
    · rename_i hlt
      refine List.pairwise_cons.2 ⟨fun e he => ?_, h⟩
      rcases List.mem_cons.1 he with rfl | he
      · exact hlt
      · exact String.lt_trans hlt (hk e he)
    · rename_i hnlt
      split
      · rename_i heq
        subst heq
        exact List.pairwise_cons.2 ⟨hk, hrest⟩
      · rename_i hne
        refine List.pairwise_cons.2 ⟨fun e he => ?_, ih hrest⟩
        rcases mem_insertSorted he with rfl | he
        · have hle : k ≤ name := String.not_lt.1 hnlt
          exact Decidable.byContradiction fun hn =>
            hne (String.le_antisymm (String.not_lt.1 hn) hle)
        · exact hk e he

/-- Values under names, sorted by name. -/
structure Directory (α : Type) where
  entries : List (String × α)
  sorted : entries.Pairwise (fun a b => a.1 < b.1)

namespace Directory

variable {α : Type}

/-- The directory without names. -/
def empty : Directory α := ⟨[], .nil⟩

instance : Inhabited (Directory α) := ⟨empty⟩

/-- The value under a name. -/
def get? (d : Directory α) (name : String) : Option α :=
  d.entries.lookup name

/-- Whether there is a value under a name. -/
def contains (d : Directory α) (name : String) : Bool :=
  (d.get? name).isSome

/-- Sets the value under a name. -/
def insert (d : Directory α) (name : String) (value : α) : Directory α :=
  ⟨insertSorted name value d.entries, pairwise_insertSorted name value d.sorted⟩

/-- Forgets a name. -/
def erase (d : Directory α) (name : String) : Directory α :=
  ⟨d.entries.filter (fun e => e.1 != name), d.sorted.filter _⟩

/-- The names, in order. -/
def names (d : Directory α) : List String :=
  d.entries.map (·.1)

/-- The values, in the order of their names. -/
def values (d : Directory α) : List α :=
  d.entries.map (·.2)

/-- How many names there are. -/
def size (d : Directory α) : Nat :=
  d.entries.length

/-- The directory of a list of named values; of two under one name the later one stays. -/
def ofList (entries : List (String × α)) : Directory α :=
  entries.foldl (fun d e => d.insert e.1 e.2) empty

/-! ## What the changes do to the view -/

@[simp] theorem get?_empty (name : String) : (empty : Directory α).get? name = none := rfl

theorem lookup_cons_ite (name other : String) (value : α) (rest : List (String × α)) :
    ((name, value) :: rest).lookup other = if other = name then some value else rest.lookup other := by
  by_cases h : other = name
  · simp [h]
  · have : (other == name) = false := by simpa using h
    simp [List.lookup_cons, this, h]

theorem lookup_insertSorted (name other : String) (value : α) (entries : List (String × α)) :
    (insertSorted name value entries).lookup other
      = if other = name then some value else entries.lookup other := by
  induction entries with
  | nil => simp [insertSorted, lookup_cons_ite]
  | cons x rest ih =>
    obtain ⟨k, v⟩ := x
    unfold insertSorted
    split
    · simp [lookup_cons_ite]
    · split
      · rename_i heq
        subst heq
        by_cases h : other = name <;> simp [lookup_cons_ite, h]
      · rename_i hne
        by_cases hk : other = k
        · subst hk
          simp [Ne.symm hne]
        · simp [lookup_cons_ite, hk, ih]

/-- After setting a name, that name has the new value and every other name its old one. -/
theorem get?_insert (d : Directory α) (name other : String) (value : α) :
    (d.insert name value).get? other = if other = name then some value else d.get? other :=
  lookup_insertSorted name other value d.entries

theorem lookup_filter_ne (name other : String) (entries : List (String × α)) :
    (entries.filter (fun e => e.1 != name)).lookup other
      = if other = name then none else entries.lookup other := by
  induction entries with
  | nil => simp
  | cons x rest ih =>
    obtain ⟨k, v⟩ := x
    by_cases hk : k = name
    · subst hk
      rw [List.filter_cons_of_neg (by simp), ih, lookup_cons_ite]
      split <;> rfl
    · by_cases ho : other = k
      · subst ho
        simp [hk]
      · simp [lookup_cons_ite, hk, ho, ih]

/-- After forgetting a name it has no value, and every other name has its old one. -/
theorem get?_erase (d : Directory α) (name other : String) :
    (d.erase name).get? other = if other = name then none else d.get? other :=
  lookup_filter_ne name other d.entries

theorem lookup_isSome_iff_mem (name : String) (entries : List (String × α)) :
    (entries.lookup name).isSome ↔ name ∈ entries.map (·.1) := by
  induction entries with
  | nil => simp
  | cons x rest ih =>
    obtain ⟨k, v⟩ := x
    by_cases h : name = k
    · subst h
      simp
    · simp [lookup_cons_ite, ih, h]

/-- The names listed are those that have a value. -/
theorem mem_names_iff (d : Directory α) (name : String) :
    name ∈ d.names ↔ (d.get? name).isSome :=
  (lookup_isSome_iff_mem name d.entries).symm

/-- The names are listed in strict order. -/
theorem pairwise_names (d : Directory α) : d.names.Pairwise (· < ·) :=
  List.pairwise_map.2 d.sorted

end Directory

end Provisioning
