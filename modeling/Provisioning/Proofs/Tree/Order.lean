import Provisioning.Proofs.Tree.Dropping

/-!
# The order of map entries

A document in another order is the same document wherever trees are compared as map keys (`Reordered.same`), so the
keys of its maps differ as before. A document is `Orderly` if no map has a key twice and no key has a tag, not even
inside: of such a key nothing is resolved and nothing is looked through, so it tells its entry from the others as it
stands. Documents that are orderly stay so in another order (`Reordered.orderly`), and whatever entries a tolerant
decode drops, it drops in any order (`Reordered.foldl_remove`, `Reordered.withTextKeys`).
-/

namespace Provisioning.Tree

variable {t u : Tree}

/-! ## Another order is the same key -/

theorem Edit.same (h : Edit List.Perm t u) : t.same u = true := by
  induction h with
  | map hes => exact same_map_iff.2 ⟨hes.length_eq, fun e he =>
      ⟨e, hes.mem_iff.1 he, same_self e.1, same_self e.2⟩⟩
  | item front rest _ ih => exact sameItems_iff.2 (forall₂_split same_self front rest ih)
  | key front rest v _ ih =>
    exact same_map_of_forall₂ (forall₂_split (fun e => ⟨same_self e.1, same_self e.2⟩) front rest
      ⟨ih, same_self v⟩)
  | value front rest k _ ih =>
    exact same_map_of_forall₂ (forall₂_split (fun e => ⟨same_self e.1, same_self e.2⟩) front rest
      ⟨same_self k, ih⟩)
  | tagged tag _ ih => rw [Tree.same, ih, beq_self_eq_true, Bool.and_true]

theorem Reordered.same (h : Reordered t u) : t.same u = true := by
  induction h with
  | refl => exact same_self t
  | tail _ hlast ih => exact same_trans ih hlast.same

theorem Reordered.key {k l : Tree} (front rest : List (Tree × Tree)) (v : Tree) (h : Reordered k l) :
    Reordered (.map (front ++ (k, v) :: rest)) (.map (front ++ (l, v) :: rest)) :=
  Relation.ReflTransGen.lift (fun k => Tree.map (front ++ (k, v) :: rest))
    (fun _ _ => Edit.key front rest v) _ _ h

theorem reordered_list_of_forall₂ {ts us : List Tree} (h : List.Forall₂ Reordered ts us) :
    ∀ front : List Tree, Reordered (.list (front ++ ts)) (.list (front ++ us)) := by
  induction h with
  | nil => exact fun front => .refl _
  | @cons t u ts us hfirst _ ih =>
    intro front
    have hrest := ih (front ++ [u])
    rw [List.append_assoc, List.append_assoc] at hrest
    exact (hfirst.item front ts).trans hrest

/-- Two entries whose keys and values differ in the order of entries only. -/
def ReorderedEntry (e f : Tree × Tree) : Prop := Reordered e.1 f.1 ∧ Reordered e.2 f.2

theorem reordered_map_of_forall₂ {es fs : List (Tree × Tree)} (h : List.Forall₂ ReorderedEntry es fs) :
    ∀ front : List (Tree × Tree), Reordered (.map (front ++ es)) (.map (front ++ fs)) := by
  induction h with
  | nil => exact fun front => .refl _
  | @cons e f es fs hfirst _ ih =>
    intro front
    have hrest := ih (front ++ [f])
    rw [List.append_assoc, List.append_assoc] at hrest
    exact (hfirst.1.key front es e.2).trans ((hfirst.2.value front es f.1).trans hrest)

/-- Keys in two orders are found at the same places. -/
theorem forall₂_insert {e f : Tree × Tree} {es fs : List (Tree × Tree)} (hentry : ReorderedEntry e f)
    (h : List.Forall₂ ReorderedEntry es fs) :
    List.Forall₂ ReorderedEntry (insert e.1 e.2 es) (insert f.1 f.2 fs) := by
  induction h with
  | nil => exact .cons hentry .nil
  | @cons a b es fs hfirst hrest ih =>
    have hsame : a.1.same e.1 = b.1.same f.1 := by
      refine Bool.eq_iff_iff.2 ⟨fun hae => ?_, fun hbf => ?_⟩
      · exact same_trans hfirst.1.symm.same (same_trans hae hentry.1.same)
      · exact same_trans hfirst.1.same (same_trans hbf hentry.1.symm.same)
    rw [insert, insert, hsame]
    split
    · exact .cons ⟨hfirst.1, hentry.2⟩ hrest
    · exact .cons hfirst ih

theorem reordered_ofEntries {es fs : List (Tree × Tree)} (h : List.Forall₂ ReorderedEntry es fs) :
    Reordered (ofEntries es) (ofEntries fs) := by
  have hset : ∀ {done done' : List (Tree × Tree)}, List.Forall₂ ReorderedEntry done done' →
      List.Forall₂ ReorderedEntry (es.foldl (fun es e => insert e.1 e.2 es) done)
        (fs.foldl (fun es e => insert e.1 e.2 es) done') := by
    induction h with
    | nil => exact id
    | cons hfirst _ ih => exact fun hdone => ih (forall₂_insert hfirst hdone)
  exact reordered_map_of_forall₂ (hset .nil) []

/-- A key in another order differs from the keys that it differed from before. -/
theorem Edit.same_eq_false {k l m : Tree} (h : Edit List.Perm k l) :
    (k.same m = false → l.same m = false) ∧ (m.same k = false → m.same l = false) := by
  have hback : l.same k = true := (h.reverse .symm).same
  refine ⟨fun hne => ?_, fun hne => ?_⟩
  · rw [← Bool.not_eq_true] at hne ⊢
    exact fun hsame => hne (same_trans h.same hsame)
  · rw [← Bool.not_eq_true] at hne ⊢
    exact fun hsame => hne (same_trans hsame hback)

theorem Edit.distinctKeys (h : Edit List.Perm t u) : t.DistinctKeys → u.DistinctKeys := by
  induction h with
  | map hes =>
    intro hkeys
    rw [distinctKeys_map] at hkeys ⊢
    obtain ⟨hdiffer, hbelow⟩ := hkeys
    exact ⟨pairwise_of_subperm hes.symm.subperm (fun e he => (hbelow e he).1) hdiffer,
      fun e he => hbelow e (hes.mem_iff.2 he)⟩
  | item front rest _ ih =>
    intro hkeys
    rw [distinctKeys_list, List.forall_mem_append, List.forall_mem_cons] at hkeys ⊢
    exact ⟨hkeys.1, ih hkeys.2.1, hkeys.2.2⟩
  | key front rest v hk ih =>
    intro hkeys
    rw [distinctKeys_map, List.forall_mem_append, List.forall_mem_cons, List.pairwise_append,
      List.pairwise_cons] at hkeys ⊢
    simp only [List.forall_mem_cons] at hkeys ⊢
    obtain ⟨⟨hfront, ⟨hfirst, hrest⟩, hcross⟩, hall⟩ := hkeys
    -- the key is compared with the keys behind it, and with those in front of it
    refine ⟨⟨hfront, ⟨fun f hf => ?_, hrest⟩, fun e he => ⟨?_, (hcross e he).2⟩⟩, ?_⟩
    · exact hk.same_eq_false.1 (hfirst f hf)
    · exact hk.same_eq_false.2 (hcross e he).1
    · exact ⟨hall.1, ⟨ih hall.2.1.1, hall.2.1.2⟩, hall.2.2⟩
  | value front rest k _ ih =>
    intro hkeys
    rw [distinctKeys_map, List.forall_mem_append, List.forall_mem_cons, List.pairwise_append,
      List.pairwise_cons] at hkeys ⊢
    simp only [List.forall_mem_cons] at hkeys ⊢
    exact ⟨hkeys.1, hkeys.2.1, ⟨hkeys.2.2.1.1, ih hkeys.2.2.1.2⟩, hkeys.2.2.2⟩
  | tagged tag _ ih =>
    intro hkeys
    rw [distinctKeys_tagged] at hkeys ⊢
    exact ih hkeys

/-! ## Keys without tags -/

/-- Whether there is a tag on this very node. -/
def isTagged : Tree → Bool
  | .tagged _ _ => true
  | _ => false

/-- There is no tag anywhere in the tree. -/
def TagFree (t : Tree) : Prop := ∀ n ∈ t.nodes, n.isTagged = false

instance (t : Tree) : Decidable t.TagFree := inferInstanceAs (Decidable (∀ n ∈ t.nodes, _))

/-- Whether there is no tag in the keys of this very node. -/
def keysAreTagFree : Tree → Bool
  | .map es => es.all fun e => decide e.1.TagFree
  | _ => true

/-- No map key of the document has a tag, and none has one inside. -/
def TagFreeKeys (t : Tree) : Prop := ∀ n ∈ t.nodes, n.keysAreTagFree = true

instance (t : Tree) : Decidable t.TagFreeKeys := inferInstanceAs (Decidable (∀ n ∈ t.nodes, _))

theorem tagFree_list {ts : List Tree} : (Tree.list ts).TagFree ↔ ∀ t ∈ ts, t.TagFree := by
  rw [TagFree, forall_nodes_list]
  exact and_iff_right rfl

theorem tagFree_map {es : List (Tree × Tree)} :
    (Tree.map es).TagFree ↔ ∀ e ∈ es, e.1.TagFree ∧ e.2.TagFree := by
  rw [TagFree, forall_nodes_map]
  exact and_iff_right rfl

theorem not_tagFree_tagged {tag : String} {content : Tree} : ¬(Tree.tagged tag content).TagFree := by
  rw [TagFree, forall_nodes_tagged]
  exact fun h => Bool.noConfusion h.1

/-- Where there is no tag at all, none names a type. -/
theorem TagFree.onlyVariantTags (h : t.TagFree) : t.OnlyVariantTags := by
  intro n hn
  cases n with
  | tagged tag content => exact Bool.noConfusion (h _ hn)
  | _ => rfl

theorem TagFree.tagFreeKeys (h : t.TagFree) : t.TagFreeKeys := by
  induction t using induct with
  | null | flag | number | text => exact fun n hn => List.mem_singleton.1 hn ▸ rfl
  | list ts ih => exact forall_nodes_list.2 ⟨rfl, fun t ht => ih t ht (tagFree_list.1 h t ht)⟩
  | map es ih =>
    have hes := tagFree_map.1 h
    refine forall_nodes_map.2 ⟨?_, fun e he => ?_⟩
    · exact List.all_eq_true.2 fun e he => decide_eq_true (hes e he).1
    · exact ⟨(ih e he).1 (hes e he).1, (ih e he).2 (hes e he).2⟩
  | tagged tag content => exact absurd h not_tagFree_tagged

theorem tagFreeKeys_list {ts : List Tree} : (Tree.list ts).TagFreeKeys ↔ ∀ t ∈ ts, t.TagFreeKeys := by
  rw [TagFreeKeys, forall_nodes_list]
  exact and_iff_right rfl

theorem tagFreeKeys_map {es : List (Tree × Tree)} :
    (Tree.map es).TagFreeKeys ↔ ∀ e ∈ es, e.1.TagFree ∧ e.2.TagFreeKeys := by
  have hkeys : (Tree.map es).keysAreTagFree = true ↔ ∀ e ∈ es, e.1.TagFree := by
    rw [keysAreTagFree, List.all_eq_true]
    exact forall₂_congr fun _ _ => decide_eq_true_iff
  rw [TagFreeKeys, forall_nodes_map, hkeys]
  refine ⟨fun h e he => ⟨h.1 e he, (h.2 e he).2⟩, fun h => ⟨fun e he => (h e he).1, fun e he => ?_⟩⟩
  exact ⟨(h e he).1.tagFreeKeys, (h e he).2⟩

theorem tagFreeKeys_tagged {tag : String} {content : Tree} :
    (Tree.tagged tag content).TagFreeKeys ↔ content.TagFreeKeys := by
  rw [TagFreeKeys, forall_nodes_tagged]
  exact and_iff_right rfl

theorem Edit.tagFree (h : Edit List.Perm t u) : t.TagFree → u.TagFree := by
  induction h with
  | map hes =>
    intro hfree
    rw [tagFree_map] at hfree ⊢
    exact fun e he => hfree e (hes.mem_iff.2 he)
  | item front rest _ ih =>
    intro hfree
    rw [tagFree_list, List.forall_mem_append, List.forall_mem_cons] at hfree ⊢
    exact ⟨hfree.1, ih hfree.2.1, hfree.2.2⟩
  | key front rest v _ ih =>
    intro hfree
    rw [tagFree_map, List.forall_mem_append, List.forall_mem_cons] at hfree ⊢
    exact ⟨hfree.1, ⟨ih hfree.2.1.1, hfree.2.1.2⟩, hfree.2.2⟩
  | value front rest k _ ih =>
    intro hfree
    rw [tagFree_map, List.forall_mem_append, List.forall_mem_cons] at hfree ⊢
    exact ⟨hfree.1, ⟨hfree.2.1.1, ih hfree.2.1.2⟩, hfree.2.2⟩
  | tagged tag _ _ => exact fun hfree => absurd hfree not_tagFree_tagged

theorem Edit.tagFreeKeys (h : Edit List.Perm t u) : t.TagFreeKeys → u.TagFreeKeys := by
  induction h with
  | map hes =>
    intro hkeys
    rw [tagFreeKeys_map] at hkeys ⊢
    exact fun e he => hkeys e (hes.mem_iff.2 he)
  | item front rest _ ih =>
    intro hkeys
    rw [tagFreeKeys_list, List.forall_mem_append, List.forall_mem_cons] at hkeys ⊢
    exact ⟨hkeys.1, ih hkeys.2.1, hkeys.2.2⟩
  | key front rest v hk _ =>
    intro hkeys
    rw [tagFreeKeys_map, List.forall_mem_append, List.forall_mem_cons] at hkeys ⊢
    exact ⟨hkeys.1, ⟨hk.tagFree hkeys.2.1.1, hkeys.2.1.2⟩, hkeys.2.2⟩
  | value front rest k _ ih =>
    intro hkeys
    rw [tagFreeKeys_map, List.forall_mem_append, List.forall_mem_cons] at hkeys ⊢
    exact ⟨hkeys.1, ⟨hkeys.2.1.1, ih hkeys.2.1.2⟩, hkeys.2.2⟩
  | tagged tag _ ih =>
    intro hkeys
    rw [tagFreeKeys_tagged] at hkeys ⊢
    exact ih hkeys

/-! ## Orderly documents -/

/-- No map has a key twice, and no key has a tag. -/
structure Orderly (t : Tree) : Prop where
  distinctKeys : t.DistinctKeys
  tagFreeKeys : t.TagFreeKeys

theorem orderly_list {ts : List Tree} : (Tree.list ts).Orderly ↔ ∀ t ∈ ts, t.Orderly := by
  refine ⟨fun h t ht => ?_, fun h => ⟨?_, ?_⟩⟩
  · exact ⟨distinctKeys_list.1 h.distinctKeys t ht, tagFreeKeys_list.1 h.tagFreeKeys t ht⟩
  · exact distinctKeys_list.2 fun t ht => (h t ht).distinctKeys
  · exact tagFreeKeys_list.2 fun t ht => (h t ht).tagFreeKeys

theorem orderly_map {es : List (Tree × Tree)} :
    (Tree.map es).Orderly ↔ es.Pairwise (fun e f => e.1.same f.1 = false) ∧
      ∀ e ∈ es, (e.1.TagFree ∧ e.1.DistinctKeys) ∧ e.2.Orderly := by
  refine ⟨fun h => ?_, fun h => ⟨?_, ?_⟩⟩
  · obtain ⟨hdiffer, hbelow⟩ := distinctKeys_map.1 h.distinctKeys
    have hfree := tagFreeKeys_map.1 h.tagFreeKeys
    exact ⟨hdiffer, fun e he => ⟨⟨(hfree e he).1, (hbelow e he).1⟩, (hbelow e he).2, (hfree e he).2⟩⟩
  · exact distinctKeys_map.2 ⟨h.1, fun e he => ⟨(h.2 e he).1.2, (h.2 e he).2.distinctKeys⟩⟩
  · exact tagFreeKeys_map.2 fun e he => ⟨(h.2 e he).1.1, (h.2 e he).2.tagFreeKeys⟩

theorem orderly_tagged {tag : String} {content : Tree} :
    (Tree.tagged tag content).Orderly ↔ content.Orderly := by
  refine ⟨fun h => ?_, fun h => ?_⟩
  · exact ⟨distinctKeys_tagged.1 h.distinctKeys, tagFreeKeys_tagged.1 h.tagFreeKeys⟩
  · exact ⟨distinctKeys_tagged.2 h.distinctKeys, tagFreeKeys_tagged.2 h.tagFreeKeys⟩

/-- A plain document has texts as keys, and these have no tag. -/
theorem Plain.orderly (h : t.Plain) : t.Orderly := by
  refine ⟨h.distinctKeys, fun n hn => ?_⟩
  have htexts := h.textKeys n hn
  cases n with
  | map es =>
    refine List.all_eq_true.2 fun e he => decide_eq_true ?_
    obtain ⟨s, hs⟩ := isTextKey_iff.1 (List.all_eq_true.1 htexts e he)
    rw [hs]
    exact fun n hn => List.mem_singleton.1 hn ▸ rfl
  | _ => rfl

theorem Edit.orderly (h : Edit List.Perm t u) (ht : t.Orderly) : u.Orderly :=
  ⟨h.distinctKeys ht.distinctKeys, h.tagFreeKeys ht.tagFreeKeys⟩

/-- A map of an orderly document that changes, be it in a key, is orderly. -/
theorem Edit.and_orderly {r : List (Tree × Tree) → List (Tree × Tree) → Prop} (h : Edit r t u)
    (horderly : t.Orderly) : Edit (fun es fs => r es fs ∧ (Tree.map es).Orderly) t u := by
  induction h with
  | map hes => exact .map ⟨hes, horderly⟩
  | item front rest _ ih =>
    exact .item front rest (ih (orderly_list.1 horderly _ (List.mem_append_right _ List.mem_cons_self)))
  | key front rest v _ ih =>
    obtain ⟨hfree, hkeys⟩ := ((orderly_map.1 horderly).2 _ (List.mem_append_right _ List.mem_cons_self)).1
    exact .key front rest v (ih ⟨hkeys, hfree.tagFreeKeys⟩)
  | value front rest k _ ih =>
    exact .value front rest k (ih ((orderly_map.1 horderly).2 _ (List.mem_append_right _ List.mem_cons_self)).2)
  | tagged tag _ ih => exact .tagged tag (ih (orderly_tagged.1 horderly))

/-- **In another order an orderly document stays orderly.** -/
theorem Reordered.orderly (h : Reordered t u) (ht : t.Orderly) : u.Orderly := by
  induction h with
  | refl => exact ht
  | tail _ hlast ih => exact hlast.orderly ih

/-! ## Dropping entries in another order -/

/-- Seen the other way round, dropping changes one map, too. -/
theorem Drops.edit (h : Drops t u) : Edit List.Subperm u t := by
  induction h with
  | entries hsub => exact .map hsub
  | item front rest _ ih => exact .item front rest ih
  | value front rest k _ ih => exact .value front rest k ih
  | tagged tag _ ih => exact .tagged tag ih

theorem Drops.tagFreeKeys (h : Drops t u) : t.TagFreeKeys → u.TagFreeKeys := by
  induction h with
  | entries hsub =>
    intro hkeys
    rw [tagFreeKeys_map] at hkeys ⊢
    exact fun e he => hkeys e (hsub.subset he)
  | item front rest _ ih =>
    intro hkeys
    rw [tagFreeKeys_list, List.forall_mem_append, List.forall_mem_cons] at hkeys ⊢
    exact ⟨hkeys.1, ih hkeys.2.1, hkeys.2.2⟩
  | value front rest k _ ih =>
    intro hkeys
    rw [tagFreeKeys_map, List.forall_mem_append, List.forall_mem_cons] at hkeys ⊢
    exact ⟨hkeys.1, ⟨hkeys.2.1.1, ih hkeys.2.1.2⟩, hkeys.2.2⟩
  | tagged tag _ ih =>
    intro hkeys
    rw [tagFreeKeys_tagged] at hkeys ⊢
    exact ih hkeys

/-- What is left of an orderly document is orderly. -/
theorem Sheds.orderly (h : Sheds t u) (ht : t.Orderly) : u.Orderly := by
  refine ⟨h.keeps.distinctKeys ht.distinctKeys, ?_⟩
  induction h with
  | refl => exact ht.tagFreeKeys
  | tail _ hlast ih => exact hlast.tagFreeKeys ih

/-- A change that loses no entry loses no key that is not text. -/
theorem Edit.hasOtherKeys_of {r : List (Tree × Tree) → List (Tree × Tree) → Prop} (hr : ∀ {es fs}, r es fs → es ⊆ fs)
    (h : Edit r t u) : t.hasOtherKeys = true → u.hasOtherKeys = true := by
  induction h with
  | map hes =>
    rw [hasOtherKeys_map, hasOtherKeys_map]
    exact fun ⟨e, he, hkeys⟩ => ⟨e, hr hes he, hkeys⟩
  | item front rest _ ih =>
    simp only [hasOtherKeys_list, List.mem_append, List.mem_cons]
    rintro ⟨t', ht' | rfl | ht', hkeys⟩
    · exact ⟨t', .inl ht', hkeys⟩
    · exact ⟨_, .inr (.inl rfl), ih hkeys⟩
    · exact ⟨t', .inr (.inr ht'), hkeys⟩
  | @key k l front rest v hk _ =>
    intro _
    rw [hasOtherKeys_map]
    exact ⟨(l, v), List.mem_append_right _ List.mem_cons_self, .inl hk.isTextKey_eq_false.2⟩
  | value front rest k _ ih =>
    simp only [hasOtherKeys_map, List.mem_append, List.mem_cons]
    rintro ⟨e, he | rfl | he, hkeys⟩
    · exact ⟨e, .inl he, hkeys⟩
    · exact ⟨_, .inr (.inl rfl), hkeys.imp_right ih⟩
    · exact ⟨e, .inr (.inr he), hkeys⟩
  | tagged tag _ ih => exact ih

theorem Reordered.hasOtherKeys_of (h : Reordered t u) (ht : t.hasOtherKeys = true) : u.hasOtherKeys = true := by
  induction h with
  | refl => exact ht
  | tail _ hlast ih => exact hlast.hasOtherKeys_of List.Perm.subset ih

/-- What is dropped brings no key that is not text. -/
theorem Sheds.hasOtherKeys_eq_false (h : Sheds t u) (ht : t.hasOtherKeys = false) : u.hasOtherKeys = false := by
  induction h with
  | refl => exact ht
  | tail _ hlast ih =>
    rw [← Bool.not_eq_true] at ih ⊢
    exact fun hkeys => ih (hlast.edit.hasOtherKeys_of List.Subperm.subset hkeys)

theorem Edit.withTextKeys_reordered (h : Edit List.Perm t u) : Reordered t.withTextKeys u.withTextKeys := by
  induction h with
  | map hes =>
    rw [Tree.withTextKeys, Tree.withTextKeys, entriesWithTextKeys_eq, entriesWithTextKeys_eq]
    exact .map (hes.filterMap _)
  | item front rest _ ih =>
    simp only [Tree.withTextKeys, itemsWithTextKeys_eq, List.map_append, List.map_cons]
    exact .item _ _ ih
  | key front rest v hk _ =>
    -- neither spelling of the key is text, so the entry goes
    have hkeys := hk.isTextKey_eq_false
    simp only [Tree.withTextKeys, entriesWithTextKeys_eq, List.filterMap_append, List.filterMap_cons,
      entryWithTextKey, hkeys.1, hkeys.2, Bool.false_eq_true, if_false]
    exact .refl _
  | value front rest k _ ih =>
    simp only [Tree.withTextKeys, entriesWithTextKeys_eq, List.filterMap_append, List.filterMap_cons,
      entryWithTextKey]
    cases k.isTextKey with
    | true => exact .value _ _ _ ih
    | false => exact .refl _
  | tagged tag _ ih => exact ih.tagged tag

theorem Reordered.withTextKeys (h : Reordered t u) : Reordered t.withTextKeys u.withTextKeys := by
  induction h with
  | refl => exact .refl _
  | tail _ hlast ih => exact ih.trans hlast.withTextKeys_reordered

/-- It does not matter in which order paths are given, nor how often. -/
theorem without_congr (t : Tree) : ∀ paths paths' : List KeyPath, (∀ path, path ∈ paths ↔ path ∈ paths') →
    t.without paths = t.without paths' := by
  have hafter {paths paths' : List KeyPath} (step : Step) (h : ∀ path, path ∈ paths ↔ path ∈ paths') :
      ∀ path, path ∈ KeyPath.after step paths ↔ path ∈ KeyPath.after step paths' := fun path => by
    simp only [KeyPath.after, List.mem_filterMap, h]
  induction t using induct with
  | null | flag | number | text => exact fun _ _ _ => rfl
  | list ts ih =>
    intro paths paths' h
    have hitems : ∀ position, itemsWithout paths position ts = itemsWithout paths' position ts := by
      induction ts with
      | nil => exact fun _ => rfl
      | cons t ts ihts =>
        intro position
        rw [itemsWithout, itemsWithout, ih t List.mem_cons_self _ _ (hafter _ h),
          ihts fun t ht => ih t (List.mem_cons_of_mem _ ht)]
    rw [without, without, hitems]
  | map es ih =>
    intro paths paths' h
    rw [without, without, entriesWithout_eq, entriesWithout_eq]
    refine congrArg Tree.map (List.filterMap_congr fun e he => ?_)
    obtain ⟨k, v⟩ := e
    cases k with
    | text s => simp only [entryWithout, hafter (.key s) h, (ih _ he).2 _ _ (hafter (.key s) h)]
    | _ => rfl
  | tagged tag content ih =>
    refine fun paths paths' h => congrArg (Tree.tagged tag) (ih _ _ fun path => ?_)
    simp only [List.mem_map, h]

/-- **Removals in any order.** The same entries removed one after the other, from a document in one order or another and
some of them perhaps again, leave the same document up to the order. -/
theorem Reordered.foldl_remove {paths paths' : List KeyPath} (h : Reordered t u) (hkeys : t.DistinctKeys)
    (hpaths : ∀ path, path ∈ paths ↔ path ∈ paths') :
    Reordered (paths.foldl (fun t path => t.remove path) t) (paths'.foldl (fun t path => t.remove path) u) := by
  have hkeys' : u.DistinctKeys := by
    induction h with
    | refl => exact hkeys
    | tail _ hlast ih => exact hlast.distinctKeys ih
  have hmiddle : Reordered (t.without paths) (u.without paths') := without_congr t _ _ hpaths ▸ h.without paths'
  exact (foldl_remove_reordered paths hkeys).trans (hmiddle.trans (foldl_remove_reordered paths' hkeys').symm)

end Provisioning.Tree
