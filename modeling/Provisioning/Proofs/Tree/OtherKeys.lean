import Provisioning.Proofs.Tree.Nodes

/-!
# Keys that are not text

`Tree.hasOtherKeys` asks for such a key, `Tree.otherKeyPaths` lists the ways to them and `Tree.withTextKeys`
drops them. The three look at the same places: below values, items and tags, and never inside a key.
-/

namespace Provisioning.Tree

/-- Whether a key is text, without a tag. -/
def isTextKey : Tree → Bool
  | .text _ => true
  | _ => false

theorem isTextKey_iff {k : Tree} : k.isTextKey = true ↔ ∃ s, k = .text s := by
  cases k <;> simp [isTextKey]

/-! ## The three traversals, entry by entry -/

theorem itemsHaveOtherKeys_eq (items : List Tree) :
    itemsHaveOtherKeys items = items.any hasOtherKeys := by
  induction items with
  | nil => rfl
  | cons t ts ih => rw [itemsHaveOtherKeys, ih, List.any_cons]

theorem entriesHaveOtherKeys_eq (entries : List (Tree × Tree)) :
    entriesHaveOtherKeys entries = entries.any (fun e => !e.1.isTextKey || e.2.hasOtherKeys) := by
  induction entries with
  | nil => rfl
  | cons e es ih =>
    obtain ⟨k, v⟩ := e
    rw [List.any_cons]
    cases k with
    | text s => rw [entriesHaveOtherKeys, ih]; rfl
    | _ => rfl

/-- A list has such a key if an item has one. -/
theorem hasOtherKeys_list {items : List Tree} :
    (Tree.list items).hasOtherKeys = true ↔ ∃ t ∈ items, t.hasOtherKeys = true := by
  rw [hasOtherKeys, itemsHaveOtherKeys_eq, List.any_eq_true]

/-- A map has such a key if one of its own keys is not text, or a value has one. -/
theorem hasOtherKeys_map {entries : List (Tree × Tree)} :
    (Tree.map entries).hasOtherKeys = true ↔
      ∃ e ∈ entries, e.1.isTextKey = false ∨ e.2.hasOtherKeys = true := by
  rw [hasOtherKeys, entriesHaveOtherKeys_eq, List.any_eq_true]
  simp

theorem itemsOtherKeyPaths_eq_nil_iff {items : List Tree} :
    ∀ position, itemsOtherKeyPaths position items = [] ↔ ∀ t ∈ items, t.otherKeyPaths = [] := by
  induction items with
  | nil => simp [itemsOtherKeyPaths]
  | cons t ts ih =>
    intro position
    rw [itemsOtherKeyPaths, List.append_eq_nil_iff, List.map_eq_nil_iff, ih, List.forall_mem_cons]

theorem entriesOtherKeyPaths_eq_nil_iff {entries : List (Tree × Tree)} :
    entriesOtherKeyPaths entries = [] ↔
      ∀ e ∈ entries, e.1.isTextKey = true ∧ e.2.otherKeyPaths = [] := by
  induction entries with
  | nil => simp [entriesOtherKeyPaths]
  | cons e es ih =>
    obtain ⟨k, v⟩ := e
    rw [List.forall_mem_cons]
    cases k with
    | text s =>
      rw [entriesOtherKeyPaths, List.append_eq_nil_iff, List.map_eq_nil_iff, ih]
      simp [isTextKey]
    | _ => simp [entriesOtherKeyPaths, isTextKey]

/-- The ways to such keys are listed exactly if there is one. -/
theorem otherKeyPaths_eq_nil_iff (t : Tree) : t.otherKeyPaths = [] ↔ t.hasOtherKeys = false := by
  induction t using induct with
  | null | flag | number | text => simp [otherKeyPaths, hasOtherKeys]
  | list items ih =>
    rw [otherKeyPaths, itemsOtherKeyPaths_eq_nil_iff, ← Bool.not_eq_true, hasOtherKeys_list]
    refine ⟨fun h hy => ?_, fun h t ht => ?_⟩
    · obtain ⟨t, ht, hkeys⟩ := hy
      rw [(ih t ht).1 (h t ht)] at hkeys
      exact Bool.noConfusion hkeys
    · exact (ih t ht).2 (Bool.eq_false_iff.2 fun hkeys => h ⟨t, ht, hkeys⟩)
  | map entries ih =>
    rw [otherKeyPaths, entriesOtherKeyPaths_eq_nil_iff, ← Bool.not_eq_true, hasOtherKeys_map]
    refine ⟨fun h hy => ?_, fun h e he => ?_⟩
    · obtain ⟨e, he, hkey | hkeys⟩ := hy
      · rw [(h e he).1] at hkey
        exact Bool.noConfusion hkey
      · rw [((ih e he).2).1 (h e he).2] at hkeys
        exact Bool.noConfusion hkeys
    · refine ⟨?_, ?_⟩
      · exact Bool.not_eq_false _ ▸ fun hkey => h ⟨e, he, .inl hkey⟩
      · exact (ih e he).2.2 (Bool.eq_false_iff.2 fun hkeys => h ⟨e, he, .inr hkeys⟩)
  | tagged tag content ih => rw [otherKeyPaths, List.map_eq_nil_iff, ih, hasOtherKeys]

/-! ## The tree without such keys -/

theorem itemsWithTextKeys_eq (items : List Tree) : itemsWithTextKeys items = items.map withTextKeys := by
  induction items with
  | nil => rfl
  | cons t ts ih => rw [itemsWithTextKeys, ih, List.map_cons]

/-- What is left of a single entry. -/
def entryWithTextKey (e : Tree × Tree) : Option (Tree × Tree) :=
  if e.1.isTextKey then some (e.1, e.2.withTextKeys) else none

theorem entriesWithTextKeys_eq (entries : List (Tree × Tree)) :
    entriesWithTextKeys entries = entries.filterMap entryWithTextKey := by
  induction entries with
  | nil => rfl
  | cons e es ih =>
    obtain ⟨k, v⟩ := e
    cases k with
    | text s => rw [entriesWithTextKeys, ih]; rfl
    | _ => rw [entriesWithTextKeys, ih] <;> first | rfl | exact nofun

/-- None is left. -/
theorem hasOtherKeys_withTextKeys (t : Tree) : t.withTextKeys.hasOtherKeys = false := by
  induction t using induct with
  | null | flag | number | text => rfl
  | list items ih =>
    rw [withTextKeys, itemsWithTextKeys_eq, ← Bool.not_eq_true, hasOtherKeys_list]
    intro h
    obtain ⟨u, hu, hkeys⟩ := h
    obtain ⟨t, ht, rfl⟩ := List.mem_map.1 hu
    rw [ih t ht] at hkeys
    exact Bool.noConfusion hkeys
  | map entries ih =>
    rw [withTextKeys, entriesWithTextKeys_eq, ← Bool.not_eq_true, hasOtherKeys_map]
    intro h
    obtain ⟨f, hf, h⟩ := h
    obtain ⟨e, he, heq⟩ := List.mem_filterMap.1 hf
    unfold entryWithTextKey at heq
    split at heq
    · rename_i hkey
      obtain rfl := Option.some.inj heq
      rcases h with h | h
      · rw [hkey] at h
        exact Bool.noConfusion h
      · rw [(ih e he).2] at h
        exact Bool.noConfusion h
    · cases heq
  | tagged tag content ih => exact ih

/-- Every map key that is a text below its tags is a text without a tag. -/
def UntaggedTextKeys (t : Tree) : Prop :=
  ∀ n ∈ t.nodes, match n with
    | .map es => ∀ e ∈ es, ∀ s, e.1.untagged = .text s → e.1.isTextKey = true
    | _ => True

theorem untaggedTextKeys_list {ts : List Tree} :
    (Tree.list ts).UntaggedTextKeys ↔ ∀ t ∈ ts, t.UntaggedTextKeys := by
  rw [UntaggedTextKeys, forall_nodes_list]
  exact and_iff_right trivial

theorem untaggedTextKeys_map {es : List (Tree × Tree)} :
    (Tree.map es).UntaggedTextKeys ↔ (∀ e ∈ es, ∀ s, e.1.untagged = .text s → e.1.isTextKey = true) ∧
      ∀ e ∈ es, e.1.UntaggedTextKeys ∧ e.2.UntaggedTextKeys := by
  rw [UntaggedTextKeys, forall_nodes_map]
  rfl

theorem untaggedTextKeys_tagged {tag : String} {content : Tree} :
    (Tree.tagged tag content).UntaggedTextKeys ↔ content.UntaggedTextKeys := by
  rw [UntaggedTextKeys, forall_nodes_tagged]
  exact and_iff_right trivial

end Provisioning.Tree
