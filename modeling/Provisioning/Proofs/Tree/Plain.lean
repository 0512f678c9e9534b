import Provisioning.Proofs.Tree.OtherKeys

/-!
# Plain documents

Three things can be asked of every node of a document: that its tag names a variant, that its keys are texts,
and that its keys differ. The last holds of every document that was read, since maps are put together entry
by entry. A document with all three is `Plain`; resolving such a document changes nothing.
-/

namespace Provisioning.Tree

/-- Whether the tag of this very node, if there is one, names a variant. -/
def tagIsVariant : Tree → Bool
  | .tagged tag _ => TagRole.ofTag tag == .variant
  | _ => true

/-- Whether the keys of this very node are texts without a tag. -/
def keysAreTexts : Tree → Bool
  | .map es => es.all fun e => e.1.isTextKey
  | _ => true

/-- Whether no two keys of this very node are one key. -/
def keysDiffer : Tree → Bool
  | .map es => decide (es.Pairwise fun e f => e.1.same f.1 = false)
  | _ => true

/-- Every tag of the document names a variant: there are no type tags and no core tags. -/
def OnlyVariantTags (t : Tree) : Prop := ∀ n ∈ t.nodes, n.tagIsVariant = true

/-- Every map key of the document is a text without a tag. -/
def TextKeys (t : Tree) : Prop := ∀ n ∈ t.nodes, n.keysAreTexts = true

/-- No map of the document has a key twice. -/
def DistinctKeys (t : Tree) : Prop := ∀ n ∈ t.nodes, n.keysDiffer = true

instance (t : Tree) : Decidable t.OnlyVariantTags := inferInstanceAs (Decidable (∀ n ∈ t.nodes, _))

instance (t : Tree) : Decidable t.TextKeys := inferInstanceAs (Decidable (∀ n ∈ t.nodes, _))

instance (t : Tree) : Decidable t.DistinctKeys := inferInstanceAs (Decidable (∀ n ∈ t.nodes, _))

/-- A document whose tags all name variants, and whose keys are texts that differ. -/
structure Plain (t : Tree) : Prop where
  onlyVariantTags : t.OnlyVariantTags
  textKeys : t.TextKeys
  distinctKeys : t.DistinctKeys

/-! ## Node by node -/

theorem onlyVariantTags_list {ts : List Tree} :
    (Tree.list ts).OnlyVariantTags ↔ ∀ t ∈ ts, t.OnlyVariantTags := by
  rw [OnlyVariantTags, forall_nodes_list]
  exact and_iff_right rfl

theorem onlyVariantTags_map {es : List (Tree × Tree)} :
    (Tree.map es).OnlyVariantTags ↔ ∀ e ∈ es, e.1.OnlyVariantTags ∧ e.2.OnlyVariantTags := by
  rw [OnlyVariantTags, forall_nodes_map]
  exact and_iff_right rfl

theorem onlyVariantTags_tagged {tag : String} {content : Tree} :
    (Tree.tagged tag content).OnlyVariantTags ↔
      TagRole.ofTag tag = .variant ∧ content.OnlyVariantTags := by
  rw [OnlyVariantTags, forall_nodes_tagged, tagIsVariant, beq_iff_eq]
  rfl

theorem distinctKeys_list {ts : List Tree} :
    (Tree.list ts).DistinctKeys ↔ ∀ t ∈ ts, t.DistinctKeys := by
  rw [DistinctKeys, forall_nodes_list]
  exact and_iff_right rfl

theorem distinctKeys_map {es : List (Tree × Tree)} :
    (Tree.map es).DistinctKeys ↔ es.Pairwise (fun e f => e.1.same f.1 = false) ∧
      ∀ e ∈ es, e.1.DistinctKeys ∧ e.2.DistinctKeys := by
  rw [DistinctKeys, forall_nodes_map, keysDiffer, decide_eq_true_iff]
  rfl

theorem distinctKeys_tagged {tag : String} {content : Tree} :
    (Tree.tagged tag content).DistinctKeys ↔ content.DistinctKeys := by
  rw [DistinctKeys, forall_nodes_tagged]
  exact and_iff_right rfl

/-! ## Nothing to resolve -/

theorem insert_of_forall_not_same {k v : Tree} {es : List (Tree × Tree)}
    (h : ∀ e ∈ es, e.1.same k = false) : insert k v es = es ++ [(k, v)] := by
  induction es with
  | nil => rfl
  | cons e rest ih =>
    obtain ⟨hfirst, hrest⟩ := List.forall_mem_cons.1 h
    rw [insert, if_neg (by rw [hfirst]; decide), ih hrest, List.cons_append]

/-- Entries whose keys differ are set one behind the other. -/
theorem foldl_insert_of_pairwise {es : List (Tree × Tree)} :
    ∀ {done : List (Tree × Tree)}, (done ++ es).Pairwise (fun e f => e.1.same f.1 = false) →
      es.foldl (fun es e => insert e.1 e.2 es) done = done ++ es := by
  induction es with
  | nil =>
    intro done _
    rw [List.foldl_nil, List.append_nil]
  | cons e rest ih =>
    intro done h
    have hnew : ∀ f ∈ done, f.1.same e.1 = false := fun f hf =>
      (List.pairwise_append.1 h).2.2 f hf e List.mem_cons_self
    rw [List.append_cons] at h
    rw [List.foldl_cons, insert_of_forall_not_same hnew, ih h, List.append_assoc, List.singleton_append]

/-- A document without type tags and core tags is left as it is. -/
theorem bare_eq_self {t : Tree} (htags : t.OnlyVariantTags) (hkeys : t.DistinctKeys) : t.bare = t := by
  induction t using induct with
  | null | flag | number | text => rfl
  | list ts ih =>
    have hts : ts.map bare = ts.map id := List.map_congr_left fun t ht =>
      ih t ht (onlyVariantTags_list.1 htags t ht) (distinctKeys_list.1 hkeys t ht)
    rw [bare, itemsBare_eq, hts, List.map_id]
  | map es ih =>
    obtain ⟨hdiffer, hdistinct⟩ := distinctKeys_map.1 hkeys
    have hes : es.map (fun e => (e.1.bare, e.2.bare)) = es.map id := List.map_congr_left fun e he => by
      obtain ⟨hk, hv⟩ := onlyVariantTags_map.1 htags e he
      rw [(ih e he).1 hk (hdistinct e he).1, (ih e he).2 hv (hdistinct e he).2]
      rfl
    rw [bare, ofEntries, entriesBare_eq, hes, List.map_id, foldl_insert_of_pairwise (by simpa using hdiffer),
      List.nil_append]
  | tagged tag content ih =>
    obtain ⟨hrole, hcontent⟩ := onlyVariantTags_tagged.1 htags
    rw [bare, hrole]
    exact congrArg _ (ih hcontent (distinctKeys_tagged.1 hkeys))

/-! ## Plain documents, part by part -/

theorem plain_list {ts : List Tree} : (Tree.list ts).Plain ↔ ∀ t ∈ ts, t.Plain := by
  have htexts : (Tree.list ts).TextKeys ↔ ∀ t ∈ ts, t.TextKeys := by
    rw [TextKeys, forall_nodes_list]
    exact and_iff_right rfl
  refine ⟨fun h t ht => ?_, fun h => ?_⟩
  · exact ⟨onlyVariantTags_list.1 h.onlyVariantTags t ht, htexts.1 h.textKeys t ht,
      distinctKeys_list.1 h.distinctKeys t ht⟩
  · exact ⟨onlyVariantTags_list.2 fun t ht => (h t ht).onlyVariantTags,
      htexts.2 fun t ht => (h t ht).textKeys, distinctKeys_list.2 fun t ht => (h t ht).distinctKeys⟩

theorem plain_tagged {tag : String} {content : Tree} :
    (Tree.tagged tag content).Plain ↔ TagRole.ofTag tag = .variant ∧ content.Plain := by
  have htexts : (Tree.tagged tag content).TextKeys ↔ content.TextKeys := by
    rw [TextKeys, forall_nodes_tagged]
    exact and_iff_right rfl
  refine ⟨fun h => ?_, fun h => ?_⟩
  · obtain ⟨hrole, htags⟩ := onlyVariantTags_tagged.1 h.onlyVariantTags
    exact ⟨hrole, htags, htexts.1 h.textKeys, distinctKeys_tagged.1 h.distinctKeys⟩
  · exact ⟨onlyVariantTags_tagged.2 ⟨h.1, h.2.onlyVariantTags⟩, htexts.2 h.2.textKeys,
      distinctKeys_tagged.2 h.2.distinctKeys⟩

theorem plain_of_isTextKey {k : Tree} (h : k.isTextKey = true) : k.Plain := by
  obtain ⟨s, rfl⟩ := isTextKey_iff.1 h
  refine ⟨?_, ?_, ?_⟩ <;> exact fun n hn => List.mem_singleton.1 hn ▸ rfl

/-- Texts are one key exactly if they are the same text. -/
theorem same_eq_false_iff_of_isTextKey {k l : Tree} (hk : k.isTextKey = true) (hl : l.isTextKey = true) :
    k.same l = false ↔ k ≠ l := by
  obtain ⟨s, rfl⟩ := isTextKey_iff.1 hk
  obtain ⟨s', rfl⟩ := isTextKey_iff.1 hl
  simp [same]

theorem plain_map {es : List (Tree × Tree)} :
    (Tree.map es).Plain ↔ (∀ e ∈ es, e.1.isTextKey = true) ∧ (es.map (·.1)).Nodup ∧ ∀ e ∈ es, e.2.Plain := by
  have htexts : (Tree.map es).TextKeys ↔ (∀ e ∈ es, e.1.isTextKey = true) ∧
      ∀ e ∈ es, e.1.TextKeys ∧ e.2.TextKeys := by
    rw [TextKeys, forall_nodes_map, keysAreTexts, List.all_eq_true]
    rfl
  have hdiffer (hkeys : ∀ e ∈ es, e.1.isTextKey = true) :
      es.Pairwise (fun e f => e.1.same f.1 = false) ↔ (es.map (·.1)).Nodup := by
    rw [List.Nodup, List.pairwise_map]
    exact List.Pairwise.iff_of_mem fun he hf => same_eq_false_iff_of_isTextKey (hkeys _ he) (hkeys _ hf)
  refine ⟨fun h => ?_, fun h => ?_⟩
  · obtain ⟨hkeys, hbelow⟩ := htexts.1 h.textKeys
    obtain ⟨hpairs, hdistinct⟩ := distinctKeys_map.1 h.distinctKeys
    exact ⟨hkeys, (hdiffer hkeys).1 hpairs, fun e he =>
      ⟨(onlyVariantTags_map.1 h.onlyVariantTags e he).2, (hbelow e he).2, (hdistinct e he).2⟩⟩
  · obtain ⟨hkeys, hnodup, hvalues⟩ := h
    have hplain (e) (he : e ∈ es) : e.1.Plain := plain_of_isTextKey (hkeys e he)
    exact ⟨onlyVariantTags_map.2 fun e he => ⟨(hplain e he).onlyVariantTags, (hvalues e he).onlyVariantTags⟩,
      htexts.2 ⟨hkeys, fun e he => ⟨(hplain e he).textKeys, (hvalues e he).textKeys⟩⟩,
      distinctKeys_map.2 ⟨(hdiffer hkeys).2 hnodup, fun e he =>
        ⟨(hplain e he).distinctKeys, (hvalues e he).distinctKeys⟩⟩⟩

theorem Plain.bare_eq_self {t : Tree} (h : t.Plain) : t.bare = t :=
  Tree.bare_eq_self h.onlyVariantTags h.distinctKeys

/-- A plain document has no key that is not text. -/
theorem Plain.hasOtherKeys_eq_false {t : Tree} (h : t.Plain) : t.hasOtherKeys = false := by
  induction t using induct with
  | null | flag | number | text => rfl
  | list ts ih =>
    rw [← Bool.not_eq_true, hasOtherKeys_list]
    intro hkeys
    obtain ⟨t, ht, hkeys⟩ := hkeys
    rw [ih t ht (plain_list.1 h t ht)] at hkeys
    exact Bool.noConfusion hkeys
  | map es ih =>
    obtain ⟨htexts, -, hvalues⟩ := plain_map.1 h
    rw [← Bool.not_eq_true, hasOtherKeys_map]
    intro hkeys
    obtain ⟨e, he, hkey | hkeys⟩ := hkeys
    · rw [htexts e he] at hkey
      exact Bool.noConfusion hkey
    · rw [(ih e he).2 (hvalues e he)] at hkeys
      exact Bool.noConfusion hkeys
  | tagged tag content ih => exact ih (plain_tagged.1 h).2

/-! ## Documents whose text keys can be named -/

/-- No map has a key twice, and no text key has a tag. So a text names at most one entry of a map. -/
structure Addressable (t : Tree) : Prop where
  distinctKeys : t.DistinctKeys
  untaggedTextKeys : t.UntaggedTextKeys

theorem addressable_list {ts : List Tree} : (Tree.list ts).Addressable ↔ ∀ t ∈ ts, t.Addressable := by
  refine ⟨fun h t ht => ?_, fun h => ⟨?_, ?_⟩⟩
  · exact ⟨distinctKeys_list.1 h.distinctKeys t ht, untaggedTextKeys_list.1 h.untaggedTextKeys t ht⟩
  · exact distinctKeys_list.2 fun t ht => (h t ht).distinctKeys
  · exact untaggedTextKeys_list.2 fun t ht => (h t ht).untaggedTextKeys

theorem Addressable.value {es : List (Tree × Tree)} (h : (Tree.map es).Addressable) {e : Tree × Tree} (he : e ∈ es) :
    e.2.Addressable :=
  ⟨((distinctKeys_map.1 h.distinctKeys).2 e he).2, ((untaggedTextKeys_map.1 h.untaggedTextKeys).2 e he).2⟩

theorem addressable_tagged {tag : String} {content : Tree} :
    (Tree.tagged tag content).Addressable ↔ content.Addressable := by
  refine ⟨fun h => ?_, fun h => ⟨?_, ?_⟩⟩
  · exact ⟨distinctKeys_tagged.1 h.distinctKeys, untaggedTextKeys_tagged.1 h.untaggedTextKeys⟩
  · exact distinctKeys_tagged.2 h.distinctKeys
  · exact untaggedTextKeys_tagged.2 h.untaggedTextKeys

theorem Plain.addressable {t : Tree} (h : t.Plain) : t.Addressable := by
  refine ⟨h.distinctKeys, fun n hn => ?_⟩
  have htexts := h.textKeys n hn
  cases n with
  | map es => exact fun e he _ _ => List.all_eq_true.1 htexts e he
  | _ => trivial

/-- Where all keys are texts below their tags, they are texts, and they differ. -/
theorem Addressable.textKeys {es : List (Tree × Tree)} (h : (Tree.map es).Addressable)
    (htexts : ∀ e ∈ es, ∃ s, e.1.untagged = .text s) :
    (∀ e ∈ es, e.1.isTextKey = true) ∧ (es.map (·.1)).Nodup := by
  have hkeys : ∀ e ∈ es, e.1.isTextKey = true := fun e he => by
    obtain ⟨s, hs⟩ := htexts e he
    exact (untaggedTextKeys_map.1 h.untaggedTextKeys).1 e he s hs
  refine ⟨hkeys, List.pairwise_map.2 ?_⟩
  exact (distinctKeys_map.1 h.distinctKeys).1.imp_of_mem fun he hf hne =>
    (same_eq_false_iff_of_isTextKey (hkeys _ he) (hkeys _ hf)).1 hne

end Provisioning.Tree
