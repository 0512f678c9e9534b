import Provisioning.Directory

/-!
# How a directory is put together

A directory is its entries in the order of their names, so it can be made again of them. Values are set one by one, and
those under different names in either order.
-/

namespace Provisioning

/-! ## Setting one value -/

theorem insertSorted_of_lt {α : Type} {a k : String} {x v : α} {rest : List (String × α)} (h : a < k) :
    insertSorted a x ((k, v) :: rest) = (a, x) :: (k, v) :: rest := if_pos h

theorem insertSorted_of_gt {α : Type} {a k : String} {x v : α} {rest : List (String × α)} (h : k < a) :
    insertSorted a x ((k, v) :: rest) = (k, v) :: insertSorted a x rest := by
  have hlt : ¬a < k := fun hlt => String.lt_irrefl a (String.lt_trans hlt h)
  have hne : a ≠ k := fun heq => String.lt_irrefl a (heq ▸ h)
  rw [insertSorted, if_neg hlt, if_neg hne]

theorem insertSorted_self {α : Type} {k : String} {x v : α} {rest : List (String × α)} :
    insertSorted k x ((k, v) :: rest) = (k, x) :: rest := by
  rw [insertSorted, if_neg (String.lt_irrefl k), if_pos rfl]

theorem insertSorted_comm_of_lt {α : Type} {a b : String} (x y : α) (hab : a < b) (es : List (String × α)) :
    insertSorted a x (insertSorted b y es) = insertSorted b y (insertSorted a x es) := by
  induction es with
  | nil =>
    rw [insertSorted, insertSorted_of_lt hab, insertSorted, insertSorted_of_gt hab, insertSorted]
  | cons e rest ih =>
    obtain ⟨k, v⟩ := e
    obtain hak | rfl | hka : a < k ∨ a = k ∨ k < a := Std.Trichotomous.rel_or_eq_or_rel_swap
    · rw [insertSorted_of_lt hak, insertSorted_of_gt hab]
      obtain hbk | rfl | hkb : b < k ∨ b = k ∨ k < b := Std.Trichotomous.rel_or_eq_or_rel_swap
      · rw [insertSorted_of_lt hbk, insertSorted_of_lt hab]
      · rw [insertSorted_self, insertSorted_of_lt hab]
      · rw [insertSorted_of_gt hkb, insertSorted_of_lt hak]
    · rw [insertSorted_of_gt hab, insertSorted_self, insertSorted_self, insertSorted_of_gt hab]
    · have hkb := String.lt_trans hka hab
      rw [insertSorted_of_gt hkb, insertSorted_of_gt hka, insertSorted_of_gt hka, insertSorted_of_gt hkb, ih]

/-- Values under different names can be set in either order. -/
theorem insertSorted_comm {α : Type} {a b : String} (x y : α) (hab : a ≠ b) (es : List (String × α)) :
    insertSorted a x (insertSorted b y es) = insertSorted b y (insertSorted a x es) := by
  obtain hlt | heq | hgt : a < b ∨ a = b ∨ b < a := Std.Trichotomous.rel_or_eq_or_rel_swap
  · exact insertSorted_comm_of_lt x y hlt es
  · exact absurd heq hab
  · exact (insertSorted_comm_of_lt y x hgt es).symm

/-! ## Setting many -/

theorem insertSorted_of_forall_lt {α : Type} {name : String} {value : α} {es : List (String × α)}
    (h : ∀ e ∈ es, e.1 < name) : insertSorted name value es = es ++ [(name, value)] := by
  induction es with
  | nil => rfl
  | cons e es ih =>
    obtain ⟨k, v⟩ := e
    obtain ⟨hfirst, hrest⟩ := List.forall_mem_cons.1 h
    rw [insertSorted_of_gt hfirst, ih hrest, List.cons_append]

/-- Entries in the order of their names are set one behind the other. -/
theorem foldl_insertSorted_of_sorted {α : Type} {es : List (String × α)} :
    ∀ {done : List (String × α)}, (done ++ es).Pairwise (fun e f => e.1 < f.1) →
      es.foldl (fun es e => insertSorted e.1 e.2 es) done = done ++ es := by
  induction es with
  | nil =>
    intro done _
    rw [List.foldl_nil, List.append_nil]
  | cons e rest ih =>
    intro done h
    have hlast : ∀ f ∈ done, f.1 < e.1 := fun f hf =>
      (List.pairwise_append.1 h).2.2 f hf e List.mem_cons_self
    rw [List.append_cons] at h
    rw [List.foldl_cons, insertSorted_of_forall_lt hlast, ih h, List.append_assoc, List.singleton_append]

/-- What holds of all entries holds of what they are set to. -/
theorem foldl_insertSorted_keeps {α : Type} {p : String × α → Prop} {es : List (String × α)} (h : ∀ e ∈ es, p e) :
    ∀ done : List (String × α), done.Pairwise (fun e f => e.1 < f.1) → (∀ e ∈ done, p e) →
      let set := es.foldl (fun es e => insertSorted e.1 e.2 es) done
      set.Pairwise (fun e f => e.1 < f.1) ∧ ∀ e ∈ set, p e := by
  induction es with
  | nil => exact fun done hsorted hdone => ⟨hsorted, hdone⟩
  | cons e es ih =>
    intro done hsorted hdone
    obtain ⟨hfirst, hrest⟩ := List.forall_mem_cons.1 h
    refine ih hrest _ (pairwise_insertSorted e.1 e.2 hsorted) fun f hf => ?_
    obtain rfl | hf := mem_insertSorted hf
    · exact hfirst
    · exact hdone f hf

theorem lookup_eq_some_of_mem {α : Type} {es : List (String × α)} {e : String × α} (h : (es.map (·.1)).Nodup)
    (he : e ∈ es) : es.lookup e.1 = some e.2 := by
  induction es with
  | nil => exact absurd he List.not_mem_nil
  | cons f rest ih =>
    obtain ⟨hnew, hrest⟩ := List.nodup_cons.1 h
    rw [Directory.lookup_cons_ite]
    rcases List.mem_cons.1 he with rfl | he
    · exact if_pos rfl
    · have hne : e.1 ≠ f.1 := fun heq => hnew (List.mem_map.2 ⟨e, he, heq⟩)
      rw [if_neg hne, ih hrest he]

theorem Directory.nodup_names {α : Type} (d : Directory α) : d.names.Nodup :=
  d.pairwise_names.imp fun hlt => String.ne_of_lt hlt

/-- A directory holds exactly its entries. -/
theorem Directory.mem_entries_iff {α : Type} (d : Directory α) (e : String × α) :
    e ∈ d.entries ↔ d.get? e.1 = some e.2 := by
  refine ⟨lookup_eq_some_of_mem d.nodup_names, fun h => ?_⟩
  have hname : e.1 ∈ d.names := (d.mem_names_iff e.1).2 (by rw [h]; rfl)
  obtain ⟨f, hf, hsame⟩ := List.mem_map.1 hname
  have hvalue := lookup_eq_some_of_mem d.nodup_names hf
  rw [hsame] at hvalue
  obtain rfl : f = e := Prod.ext hsame (Option.some.inj (hvalue.symm.trans h))
  exact hf

/-- A directory is determined by its look-up. -/
theorem Directory.ext_get? {α : Type} {d e : Directory α} (h : ∀ name, d.get? name = e.get? name) : d = e := by
  have hmem : ∀ x, x ∈ d.entries ↔ x ∈ e.entries := by
    intro x
    rw [d.mem_entries_iff, e.mem_entries_iff, h]
  have hnodup : ∀ f : Directory α, f.entries.Nodup := by
    intro f
    refine List.Pairwise.imp (fun {x y} hlt => ?_) f.sorted
    rintro rfl
    exact String.lt_irrefl _ hlt
  have hperm := (List.perm_ext_iff_of_nodup (hnodup d) (hnodup e)).2 hmem
  have hentries : d.entries = e.entries := hperm.eq_of_pairwise
    (fun x y _ _ hxy hyx => absurd (String.lt_trans hxy hyx) (String.lt_irrefl _)) d.sorted e.sorted
  obtain ⟨entries, hsorted⟩ := d
  obtain ⟨entries', hsorted'⟩ := e
  obtain rfl : entries = entries' := hentries
  rfl

/-- A directory is made again of its entries. -/
theorem Directory.ofList_entries {α : Type} (d : Directory α) : Directory.ofList d.entries = d := by
  have hentries : ∀ (es : List (String × α)) (d : Directory α),
      (es.foldl (fun d e => d.insert e.1 e.2) d).entries =
        es.foldl (fun es e => insertSorted e.1 e.2 es) d.entries := by
    intro es
    induction es with
    | nil => exact fun d => rfl
    | cons e es ih => exact fun d => ih (d.insert e.1 e.2)
  obtain ⟨entries, hsorted⟩ := d
  have hself : (Directory.ofList entries).entries = entries :=
    (hentries entries .empty).trans (foldl_insertSorted_of_sorted hsorted)
  generalize Directory.ofList entries = d at hself
  obtain ⟨entries', hsorted'⟩ := d
  obtain rfl := hself
  rfl

end Provisioning
