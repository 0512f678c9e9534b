import Provisioning.Proofs.Tree.Plain

/-!
# Maps that are put together entry by entry

`Tree.insert` sets one entry: a new key goes to the end, a key that is there keeps its place and its spelling. So
the keys of a map that is put together this way always differ, and an entry is lost exactly where two keys became
one. Resolving a document puts all its maps together anew, from keys without their tags; `Tree.KeysStayApart` says
that no two of them become one key by that, and `entryCount_bare` that this is what keeps all entries.
-/

namespace Provisioning.Tree

/-! ## Keys and values -/

/-- A key of the new map is the new key or one from before. -/
theorem forall_mem_insert {p q : Tree → Prop} {k v : Tree} {es : List (Tree × Tree)} (hk : p k) (hv : q v)
    (h : ∀ e ∈ es, p e.1 ∧ q e.2) : ∀ e ∈ insert k v es, p e.1 ∧ q e.2 := by
  induction es with
  | nil =>
    intro e he
    obtain rfl := List.mem_singleton.1 he
    exact ⟨hk, hv⟩
  | cons e es ih =>
    obtain ⟨l, w⟩ := e
    obtain ⟨⟨hl, hw⟩, hes⟩ := List.forall_mem_cons.1 h
    rw [insert]
    split
    · exact List.forall_mem_cons.2 ⟨⟨hl, hv⟩, hes⟩
    · exact List.forall_mem_cons.2 ⟨⟨hl, hw⟩, ih hes⟩

theorem pairwise_insert {k v : Tree} {es : List (Tree × Tree)}
    (h : es.Pairwise fun e f => e.1.same f.1 = false) :
    (insert k v es).Pairwise fun e f => e.1.same f.1 = false := by
  induction es with
  | nil => exact List.pairwise_singleton _ _
  | cons e es ih =>
    obtain ⟨l, w⟩ := e
    obtain ⟨hfirst, hrest⟩ := List.pairwise_cons.1 h
    rw [insert]
    split
    · exact List.pairwise_cons.2 ⟨hfirst, hrest⟩
    · rename_i hne
      have hnew : l.same k = false := Bool.eq_false_iff.2 hne
      have hkeys := @forall_mem_insert (fun x => l.same x = false) (fun _ => True) k v es hnew trivial
        fun f hf => ⟨hfirst f hf, trivial⟩
      exact List.pairwise_cons.2 ⟨fun f hf => (hkeys f hf).1, ih hrest⟩

theorem forall_mem_foldl_insert {p q : Tree → Prop} {fs : List (Tree × Tree)}
    (h : ∀ f ∈ fs, p f.1 ∧ q f.2) :
    ∀ {done : List (Tree × Tree)}, (∀ e ∈ done, p e.1 ∧ q e.2) →
      ∀ e ∈ fs.foldl (fun es e => insert e.1 e.2 es) done, p e.1 ∧ q e.2 := by
  induction fs with
  | nil => exact id
  | cons f fs ih =>
    intro done hdone
    obtain ⟨hf, hfs⟩ := List.forall_mem_cons.1 h
    exact ih hfs (forall_mem_insert hf.1 hf.2 hdone)

/-- However often keys come back, the keys of the map that is left differ. -/
theorem pairwise_foldl_insert (fs : List (Tree × Tree)) :
    ∀ {done : List (Tree × Tree)}, (done.Pairwise fun e f => e.1.same f.1 = false) →
      (fs.foldl (fun es e => insert e.1 e.2 es) done).Pairwise fun e f => e.1.same f.1 = false := by
  induction fs with
  | nil => exact id
  | cons f fs ih => exact fun hdone => ih (pairwise_insert hdone)

/-! ## The number of entries -/

theorem entriesEntryCount_append (es fs : List (Tree × Tree)) :
    entriesEntryCount (es ++ fs) = entriesEntryCount es + entriesEntryCount fs := by
  induction es with
  | nil => simp [entriesEntryCount]
  | cons e es ih =>
    obtain ⟨k, v⟩ := e
    rw [List.cons_append, entriesEntryCount, ih, entriesEntryCount]
    omega

theorem entryCount_insert_of_new {k v : Tree} {es : List (Tree × Tree)} (h : ∀ e ∈ es, e.1.same k = false) :
    entriesEntryCount (insert k v es) = entriesEntryCount es + (1 + k.entryCount + v.entryCount) := by
  rw [insert_of_forall_not_same h, entriesEntryCount_append]
  rfl

/-- A key that is there already costs the entry, and all that is below its old value. -/
theorem entryCount_insert_lt {k v : Tree} {es : List (Tree × Tree)} (h : ∃ e ∈ es, e.1.same k = true) :
    entriesEntryCount (insert k v es) < entriesEntryCount es + (1 + k.entryCount + v.entryCount) := by
  induction es with
  | nil =>
    obtain ⟨e, he, -⟩ := h
    exact absurd he List.not_mem_nil
  | cons e es ih =>
    obtain ⟨l, w⟩ := e
    rw [insert]
    split
    · simp only [entriesEntryCount]
      omega
    · rename_i hne
      have hrest : ∃ e ∈ es, e.1.same k = true := by
        obtain ⟨f, hf, hsame⟩ := h
        rcases List.mem_cons.1 hf with rfl | hf
        · exact absurd hsame hne
        · exact ⟨f, hf, hsame⟩
      have := ih hrest
      simp only [entriesEntryCount]
      omega

/-- Entries that are set one after another are all kept exactly if their keys differ. -/
theorem entryCount_foldl_insert (fs : List (Tree × Tree)) :
    ∀ done : List (Tree × Tree),
      let es := fs.foldl (fun es e => insert e.1 e.2 es) done
      entriesEntryCount es ≤ entriesEntryCount done + entriesEntryCount fs ∧
        (entriesEntryCount es = entriesEntryCount done + entriesEntryCount fs ↔
          (∀ e ∈ done, ∀ f ∈ fs, e.1.same f.1 = false) ∧ fs.Pairwise fun e f => e.1.same f.1 = false) := by
  induction fs with
  | nil => simp [entriesEntryCount]
  | cons f fs ih =>
    intro done
    obtain ⟨k, v⟩ := f
    obtain ⟨hle, hiff⟩ := ih (insert k v done)
    simp only [List.foldl_cons, entriesEntryCount] at hle hiff ⊢
    -- at this step an entry is lost exactly if the key is there already
    by_cases hold : ∃ e ∈ done, e.1.same k = true
    · have hcount := @entryCount_insert_lt k v done hold
      refine ⟨by omega, fun h => ?_, fun h => ?_⟩
      · omega
      · obtain ⟨e, he, hsame⟩ := hold
        rw [h.1 e he (k, v) List.mem_cons_self] at hsame
        exact Bool.noConfusion hsame
    · have hnew : ∀ e ∈ done, e.1.same k = false := fun e he =>
        Bool.eq_false_iff.2 fun hsame => hold ⟨e, he, hsame⟩
      have hcount := @entryCount_insert_of_new k v done hnew
      refine ⟨by omega, ?_⟩
      have hsum : entriesEntryCount done + (1 + k.entryCount + v.entryCount + entriesEntryCount fs) =
          entriesEntryCount (insert k v done) + entriesEntryCount fs := by omega
      rw [hsum, hiff, insert_of_forall_not_same hnew, List.pairwise_cons]
      simp only [List.forall_mem_append, List.forall_mem_singleton, List.forall_mem_cons]
      refine ⟨fun h => ?_, fun h => ?_⟩
      · obtain ⟨⟨hdone, hfirst⟩, hrest⟩ := h
        exact ⟨fun e he => ⟨hnew e he, hdone e he⟩, hfirst, hrest⟩
      · obtain ⟨hdone, hfirst, hrest⟩ := h
        exact ⟨⟨fun e he => (hdone e he).2, hfirst⟩, hrest⟩

/-! ## Keys that become one -/

/-- Whether no two keys of this very node are one key once type tags and core tags are gone. -/
def bareKeysDiffer : Tree → Bool
  | .map es => decide (es.Pairwise fun e f => e.1.bare.same f.1.bare = false)
  | _ => true

/-- No two keys of one map become one key by losing their type tags and core tags. -/
def KeysStayApart (t : Tree) : Prop := ∀ n ∈ t.nodes, n.bareKeysDiffer = true

instance (t : Tree) : Decidable t.KeysStayApart := inferInstanceAs (Decidable (∀ n ∈ t.nodes, _))

theorem keysStayApart_list {ts : List Tree} : (Tree.list ts).KeysStayApart ↔ ∀ t ∈ ts, t.KeysStayApart := by
  rw [KeysStayApart, forall_nodes_list]
  exact and_iff_right rfl

theorem keysStayApart_map {es : List (Tree × Tree)} :
    (Tree.map es).KeysStayApart ↔ es.Pairwise (fun e f => e.1.bare.same f.1.bare = false) ∧
      ∀ e ∈ es, e.1.KeysStayApart ∧ e.2.KeysStayApart := by
  rw [KeysStayApart, forall_nodes_map, bareKeysDiffer, decide_eq_true_iff]
  rfl

theorem keysStayApart_tagged {tag : String} {content : Tree} :
    (Tree.tagged tag content).KeysStayApart ↔ content.KeysStayApart := by
  rw [KeysStayApart, forall_nodes_tagged]
  exact and_iff_right rfl

/-- Whether the keys of this very node have no type tags and no core tags, at any depth. -/
def keysAreResolved : Tree → Bool
  | .map es => es.all fun e => decide e.1.OnlyVariantTags
  | _ => true

/-- Keys without such tags stay what they are. -/
theorem keysStayApart_of_resolved {t : Tree} (hkeys : t.DistinctKeys)
    (h : ∀ n ∈ t.nodes, n.keysAreResolved = true) : t.KeysStayApart := by
  induction t using induct with
  | null | flag | number | text => exact fun n hn => List.mem_singleton.1 hn ▸ rfl
  | list ts ih =>
    obtain ⟨-, hts⟩ := forall_nodes_list.1 h
    exact keysStayApart_list.2 fun t ht => ih t ht (distinctKeys_list.1 hkeys t ht) (hts t ht)
  | map es ih =>
    obtain ⟨hpairs, hdistinct⟩ := distinctKeys_map.1 hkeys
    obtain ⟨hresolved, hes⟩ := forall_nodes_map.1 h
    have hbare : ∀ e ∈ es, e.1.bare = e.1 := fun e he =>
      bare_eq_self (of_decide_eq_true (List.all_eq_true.1 hresolved e he)) (hdistinct e he).1
    refine keysStayApart_map.2 ⟨hpairs.imp_of_mem fun he hf hne => ?_, fun e he => ?_⟩
    · rw [hbare _ he, hbare _ hf]
      exact hne
    · exact ⟨(ih e he).1 (hdistinct e he).1 (hes e he).1, (ih e he).2 (hdistinct e he).2 (hes e he).2⟩
  | tagged tag content ih =>
    obtain ⟨-, hcontent⟩ := forall_nodes_tagged.1 h
    exact keysStayApart_tagged.2 (ih (distinctKeys_tagged.1 hkeys) hcontent)

/-- The tree without its tags has all the entries of the tree. -/
def KeepsEntries (t : Tree) : Prop :=
  t.bare.entryCount ≤ t.entryCount ∧ (t.bare.entryCount = t.entryCount ↔ t.KeysStayApart)

theorem itemsEntryCount_bare {ts : List Tree} (ih : ∀ t ∈ ts, t.KeepsEntries) :
    itemsEntryCount (ts.map bare) ≤ itemsEntryCount ts ∧
      (itemsEntryCount (ts.map bare) = itemsEntryCount ts ↔ ∀ t ∈ ts, t.KeysStayApart) := by
  induction ts with
  | nil => simp
  | cons t ts ihts =>
    obtain ⟨hle, hiff⟩ := ih t List.mem_cons_self
    obtain ⟨hles, hiffs⟩ := ihts fun t ht => ih t (List.mem_cons_of_mem _ ht)
    simp only [List.map_cons, itemsEntryCount, List.forall_mem_cons]
    rw [← hiff, ← hiffs]
    omega

theorem entriesEntryCount_bare {es : List (Tree × Tree)}
    (ih : ∀ e ∈ es, e.1.KeepsEntries ∧ e.2.KeepsEntries) :
    entriesEntryCount (entriesBare es) ≤ entriesEntryCount es ∧
      (entriesEntryCount (entriesBare es) = entriesEntryCount es ↔
        ∀ e ∈ es, e.1.KeysStayApart ∧ e.2.KeysStayApart) := by
  induction es with
  | nil => simp [entriesBare]
  | cons e es ihes =>
    obtain ⟨k, v⟩ := e
    obtain ⟨⟨hlek, hk⟩, hlev, hv⟩ := ih (k, v) List.mem_cons_self
    obtain ⟨hles, hiffs⟩ := ihes fun e he => ih e (List.mem_cons_of_mem _ he)
    simp only [entriesBare, entriesEntryCount, List.forall_mem_cons] at hlek hlev hk hv ⊢
    rw [← hk, ← hv, ← hiffs]
    omega

/-- **Losing its tags costs a tree entries exactly where two keys become one.** -/
theorem entryCount_bare (t : Tree) : t.KeepsEntries := by
  induction t using induct with
  | null | flag | number | text =>
    refine ⟨Nat.le_refl _, fun _ => ?_, fun _ => rfl⟩
    exact fun n hn => List.mem_singleton.1 hn ▸ rfl
  | list ts ih =>
    rw [KeepsEntries, bare, itemsBare_eq, entryCount, entryCount, keysStayApart_list]
    exact itemsEntryCount_bare ih
  | map es ih =>
    obtain ⟨hle, hiff⟩ := entriesEntryCount_bare ih
    obtain ⟨hle', hiff'⟩ := entryCount_foldl_insert (entriesBare es) []
    have hpairs : (entriesBare es).Pairwise (fun e f => e.1.same f.1 = false) ↔
        es.Pairwise fun e f => e.1.bare.same f.1.bare = false := by
      rw [entriesBare_eq, List.pairwise_map]
    simp only [entriesEntryCount, Nat.zero_add, List.not_mem_nil, false_imp_iff, implies_true, true_and,
      hpairs] at hle' hiff'
    rw [KeepsEntries, bare, ofEntries, entryCount, entryCount, keysStayApart_map, ← hiff, ← hiff']
    omega
  | tagged tag content ih =>
    rw [KeepsEntries, keysStayApart_tagged, entryCount, bare]
    cases TagRole.ofTag tag with
    | variant => exact ih
    | core => exact ih
    | type name => exact ih

end Provisioning.Tree
