import Provisioning.Proofs.Tree.Pruning
import Provisioning.Proofs.Tree.Sameness

/-!
# Dropping entries of any document

A tolerant decode drops entries in two ways: `Tree.remove` takes out the one that a path leads to and moves another
into its place (`LosesEntry`), `Tree.withTextKeys` leaves out those whose keys are not text. Whatever the document is,
both only ever drop entries of maps that are reached through values (`Sheds`). Map keys stay as they are, and so a
document that has nothing left to resolve is still one afterwards, no deeper than before.
-/

namespace Provisioning.Tree

/-- The second tree is the first one without some entries of one map; the others may stand in any order. The map is
reached through values only. -/
inductive Drops : Tree → Tree → Prop
  | entries {es fs : List (Tree × Tree)} : List.Subperm fs es → Drops (.map es) (.map fs)
  | item {t u : Tree} (front rest : List Tree) :
      Drops t u → Drops (.list (front ++ t :: rest)) (.list (front ++ u :: rest))
  | value {v w : Tree} (front rest : List (Tree × Tree)) (k : Tree) :
      Drops v w → Drops (.map (front ++ (k, v) :: rest)) (.map (front ++ (k, w) :: rest))
  | tagged {t u : Tree} (tag : String) : Drops t u → Drops (.tagged tag t) (.tagged tag u)

/-- The second tree is the first one without some of its entries. -/
def Sheds : Tree → Tree → Prop := Relation.ReflTransGen Drops

variable {t u : Tree}

namespace Sheds

theorem refl (t : Tree) : Sheds t t := Relation.ReflTransGen.refl

theorem trans {w : Tree} (h : Sheds t u) (h' : Sheds u w) : Sheds t w :=
  Relation.ReflTransGen.trans h h'

theorem entries {es fs : List (Tree × Tree)} (h : List.Subperm fs es) : Sheds (.map es) (.map fs) :=
  .single (.entries h)

theorem tagged (tag : String) (h : Sheds t u) : Sheds (.tagged tag t) (.tagged tag u) :=
  Relation.ReflTransGen.lift (Tree.tagged tag) (fun _ _ => Drops.tagged tag) _ _ h

theorem item (front rest : List Tree) (h : Sheds t u) :
    Sheds (.list (front ++ t :: rest)) (.list (front ++ u :: rest)) :=
  Relation.ReflTransGen.lift (fun t => Tree.list (front ++ t :: rest)) (fun _ _ => Drops.item front rest) _ _ h

theorem value (front rest : List (Tree × Tree)) (k : Tree) (h : Sheds t u) :
    Sheds (.map (front ++ (k, t) :: rest)) (.map (front ++ (k, u) :: rest)) :=
  Relation.ReflTransGen.lift (fun v => Tree.map (front ++ (k, v) :: rest))
    (fun _ _ => Drops.value front rest k) _ _ h

/-- What every item sheds, the list sheds. -/
theorem items {f : Tree → Tree} {ts : List Tree} (h : ∀ t ∈ ts, Sheds t (f t)) :
    ∀ front : List Tree, Sheds (.list (front ++ ts)) (.list (front ++ ts.map f)) := by
  induction ts with
  | nil => exact fun front => refl _
  | cons t ts ih =>
    intro front
    obtain ⟨ht, hts⟩ := List.forall_mem_cons.1 h
    have hrest := ih hts (front ++ [f t])
    rw [List.append_assoc, List.append_assoc] at hrest
    exact (item front ts ht).trans hrest

/-- What every value sheds, the map sheds. -/
theorem values {f : Tree → Tree} {es : List (Tree × Tree)} (h : ∀ e ∈ es, Sheds e.2 (f e.2)) :
    ∀ front : List (Tree × Tree),
      Sheds (.map (front ++ es)) (.map (front ++ es.map fun e => (e.1, f e.2))) := by
  induction es with
  | nil => exact fun front => refl _
  | cons e es ih =>
    intro front
    obtain ⟨k, v⟩ := e
    obtain ⟨hv, hes⟩ := List.forall_mem_cons.1 h
    have hrest := ih hes (front ++ [(k, f v)])
    rw [List.append_assoc, List.append_assoc] at hrest
    exact (value front es k hv).trans hrest

/-- What a tree sheds below its tags, it sheds. -/
theorem belowTags {f : Tree → Tree} (h : ∀ t, Sheds t (f t)) (t : Tree) : Sheds t (t.belowTags f) := by
  induction t using induct with
  | tagged tag content ih => exact ih.tagged tag
  | _ => exact h _

end Sheds

/-! ## What stays -/

theorem Drops.depth_le (h : Drops t u) : u.depth ≤ t.depth := by
  induction h with
  | @entries es fs hsub =>
    have hes := entriesDepth_le_iff.1 (Nat.le_refl (entriesDepth es))
    exact entriesDepth_le_iff.2 fun e he => hes e (hsub.subset he)
  | item front rest _ ih =>
    simp only [depth, itemsDepth_append, itemsDepth]
    omega
  | value front rest k _ ih =>
    simp only [depth, entriesDepth_append, entriesDepth]
    omega
  | tagged tag _ ih => exact Nat.succ_le_succ ih

theorem Drops.onlyVariantTags (h : Drops t u) : t.OnlyVariantTags → u.OnlyVariantTags := by
  induction h with
  | entries hsub =>
    intro htags
    rw [onlyVariantTags_map] at htags ⊢
    exact fun e he => htags e (hsub.subset he)
  | item front rest _ ih =>
    intro htags
    rw [onlyVariantTags_list, List.forall_mem_append, List.forall_mem_cons] at htags ⊢
    exact ⟨htags.1, ih htags.2.1, htags.2.2⟩
  | value front rest k _ ih =>
    intro htags
    rw [onlyVariantTags_map, List.forall_mem_append, List.forall_mem_cons] at htags ⊢
    exact ⟨htags.1, ⟨htags.2.1.1, ih htags.2.1.2⟩, htags.2.2⟩
  | tagged tag _ ih =>
    intro htags
    rw [onlyVariantTags_tagged] at htags ⊢
    exact ⟨htags.1, ih htags.2⟩

theorem Drops.distinctKeys (h : Drops t u) : t.DistinctKeys → u.DistinctKeys := by
  induction h with
  | entries hsub =>
    intro hkeys
    rw [distinctKeys_map] at hkeys ⊢
    obtain ⟨hdiffer, hbelow⟩ := hkeys
    exact ⟨pairwise_of_subperm hsub (fun e he => (hbelow e he).1) hdiffer, fun e he => hbelow e (hsub.subset he)⟩
  | item front rest _ ih =>
    intro hkeys
    rw [distinctKeys_list, List.forall_mem_append, List.forall_mem_cons] at hkeys ⊢
    exact ⟨hkeys.1, ih hkeys.2.1, hkeys.2.2⟩
  | value front rest k _ ih =>
    intro hkeys
    rw [distinctKeys_map, List.forall_mem_append, List.forall_mem_cons] at hkeys ⊢
    obtain ⟨hdiffer, hfront, hentry, hrest⟩ := hkeys
    -- the keys of the map itself are those from before
    rw [List.pairwise_append, List.pairwise_cons] at hdiffer ⊢
    simp only [List.forall_mem_cons] at hdiffer ⊢
    exact ⟨hdiffer, hfront, ⟨hentry.1, ih hentry.2⟩, hrest⟩
  | tagged tag _ ih =>
    intro hkeys
    rw [distinctKeys_tagged] at hkeys ⊢
    exact ih hkeys

theorem Drops.label_eq (h : Drops t u) : u.label = t.label := by
  cases h <;> rfl

/-- What holds of a tree also holds once entries are dropped. -/
structure Keeps (t u : Tree) : Prop where
  depth_le : u.depth ≤ t.depth
  onlyVariantTags : t.OnlyVariantTags → u.OnlyVariantTags
  distinctKeys : t.DistinctKeys → u.DistinctKeys
  label_eq : u.label = t.label

theorem Drops.keeps (h : Drops t u) : Keeps t u := ⟨h.depth_le, h.onlyVariantTags, h.distinctKeys, h.label_eq⟩

theorem Sheds.keeps (h : Sheds t u) : Keeps t u := by
  induction h with
  | refl => exact ⟨Nat.le_refl _, id, id, rfl⟩
  | tail _ hlast ih =>
    have hstep := hlast.keeps
    exact ⟨Nat.le_trans hstep.depth_le ih.depth_le, fun htags => hstep.onlyVariantTags (ih.onlyVariantTags htags),
      fun hkeys => hstep.distinctKeys (ih.distinctKeys hkeys), hstep.label_eq.trans ih.label_eq⟩

/-! ## The two ways to drop -/

/-- The first entry of a map under a text key, if there is one. -/
theorem lacks_or_first (label : String) (es : List (Tree × Tree)) :
    Lacks label es ∨ ∃ front v rest, es = front ++ (.text label, v) :: rest ∧ Lacks label front := by
  induction es with
  | nil => exact .inl (by simp [Lacks])
  | cons e es ih =>
    obtain ⟨k, v⟩ := e
    by_cases hk : k.isText label = true
    · obtain rfl := isText_iff.1 hk
      exact .inr ⟨[], v, es, rfl, by simp [Lacks]⟩
    · have hk' : k.isText label = false := Bool.eq_false_iff.2 hk
      rcases ih with hlacks | ⟨front, w, rest, rfl, hfront⟩
      · exact .inl (List.forall_mem_cons.2 ⟨hk', hlacks⟩)
      · exact .inr ⟨(k, v) :: front, w, rest, rfl, List.forall_mem_cons.2 ⟨hk', hfront⟩⟩

/-- A key is erased with its entry, or there is none. -/
theorem erase_cases (label : String) (es : List (Tree × Tree)) :
    erase label es = es ∨ ∃ v, es.Perm ((.text label, v) :: erase label es) := by
  rcases lacks_or_first label es with hlacks | ⟨front, v, rest, rfl, hfront⟩
  · exact .inl (erase_of_lacks hlacks)
  · exact .inr ⟨v, List.perm_middle.trans ((erase_perm v hfront).symm.cons _)⟩

/-- The second tree is the first one without the one entry that the path leads to. The other entries of that map may
stand in any order. -/
inductive LosesEntry : KeyPath → Tree → Tree → Prop
  | here {label : String} {v : Tree} {es fs : List (Tree × Tree)} :
      es.Perm ((.text label, v) :: fs) → LosesEntry [.key label] (.map es) (.map fs)
  | value {path : KeyPath} {v w : Tree} (label : String) (front rest : List (Tree × Tree)) : LosesEntry path v w →
      LosesEntry (.key label :: path) (.map (front ++ (.text label, v) :: rest))
        (.map (front ++ (.text label, w) :: rest))
  | item {path : KeyPath} {t u : Tree} (front rest : List Tree) : LosesEntry path t u →
      LosesEntry (.index front.length :: path) (.list (front ++ t :: rest)) (.list (front ++ u :: rest))
  | tagged {path : KeyPath} {t u : Tree} (tag : String) : LosesEntry path.belowTag t u →
      LosesEntry path (.tagged tag t) (.tagged tag u)

theorem LosesEntry.drops {path : KeyPath} (h : LosesEntry path t u) : Drops t u := by
  induction h with
  | here hes => exact .entries ((List.sublist_cons_self _ _).subperm.trans hes.symm.subperm)
  | value label front rest _ ih => exact .value front rest _ ih
  | item front rest _ ih => exact .item front rest ih
  | tagged tag _ ih => exact .tagged tag ih

theorem remove_tagged (path : KeyPath) (tag : String) (content : Tree) :
    (Tree.tagged tag content).remove path = .tagged tag (content.remove path.belowTag) := by
  cases path with
  | nil => rfl
  | cons step path =>
    cases step with
    | key label => cases path <;> rfl
    | _ => rfl

/-- **One removal.** It changes nothing, or it takes out one entry. -/
theorem remove_cases (t : Tree) : ∀ path, t.remove path = t ∨ LosesEntry path t (t.remove path) := by
  induction t using induct with
  | null | flag | number | text =>
    intro path
    rcases path with _ | ⟨_ | _ | _, _ | _⟩ <;> exact .inl rfl
  | list ts ih =>
    intro path
    rcases path with _ | ⟨_ | i | _, path⟩
    · exact .inl rfl
    · exact .inl (by cases path <;> rfl)
    · rw [remove_index_list]
      rcases length_le_or_split ts i with hlen | ⟨front, t, rest, rfl, rfl⟩
      · exact .inl (by rw [List.modify_eq_self hlen])
      · rw [modify_split]
        refine (ih t (by simp) path).imp (fun hsame => ?_) fun hloses => .item front rest hloses
        rw [hsame]
    · exact .inl rfl
  | map es ih =>
    intro path
    rcases path with _ | ⟨label | _ | _, _ | ⟨step, path⟩⟩
    case cons.key.nil =>
      exact (erase_cases label es).imp (congrArg Tree.map) fun ⟨_, hes⟩ => .here hes
    case cons.key.cons =>
      rcases lacks_or_first label es with hlacks | ⟨front, v, rest, rfl, hfront⟩
      · exact .inl (remove_key_of_lacks hlacks _)
      · rw [remove_key_cons_map, adjust_split hfront]
        refine ((ih (.text label, v) (by simp)).2 (step :: path)).imp (fun hsame => ?_)
          fun hloses => .value label front rest hloses
        rw [hsame]
    all_goals exact .inl rfl
  | tagged tag content ih =>
    intro path
    rw [remove_tagged]
    exact (ih path.belowTag).imp (congrArg (Tree.tagged tag)) (.tagged tag)

/-- So a removal drops entries. -/
theorem sheds_remove (path : KeyPath) (t : Tree) : Sheds t (t.remove path) := by
  rcases t.remove_cases path with hsame | hloses
  · rw [hsame]
    exact .refl t
  · exact .single hloses.drops

/-- So do removals one after the other. -/
theorem sheds_foldl_remove (paths : List KeyPath) :
    ∀ t : Tree, Sheds t (paths.foldl (fun t path => t.remove path) t) := by
  induction paths with
  | nil => exact Sheds.refl
  | cons path paths ih => exact fun t => (sheds_remove path t).trans (ih _)

/-- And so does doing without the keys that are not text. -/
theorem sheds_withTextKeys (t : Tree) : Sheds t t.withTextKeys := by
  induction t using induct with
  | null | flag | number | text => exact .refl _
  | list ts ih =>
    rw [withTextKeys, itemsWithTextKeys_eq]
    exact .items ih []
  | map es ih =>
    have htexts : es.filterMap entryWithTextKey =
        (es.filter fun e => e.1.isTextKey).map fun e => (e.1, e.2.withTextKeys) := by
      rw [← List.filterMap_eq_map, List.filterMap_filter]
      rfl
    rw [withTextKeys, entriesWithTextKeys_eq, htexts]
    have hfirst : Sheds (.map es) (.map (es.filter fun e => e.1.isTextKey)) :=
      .entries List.filter_sublist.subperm
    exact hfirst.trans (.values (fun e he => (ih e (List.mem_filter.1 he).1).2) [])
  | tagged tag content ih => exact ih.tagged tag

/-- **Removing entries one after the other.** Whichever way removals shuffle a map, they come to the
document without the entries that the paths lead to. -/
theorem foldl_remove_reordered (paths : List KeyPath) :
    ∀ {t : Tree}, t.DistinctKeys → Reordered (paths.foldl (fun t path => t.remove path) t) (t.without paths) := by
  induction paths with
  | nil =>
    intro t _
    rw [without_nil]
    exact .refl t
  | cons path paths ih =>
    intro t hkeys
    have hfirst := remove_reordered path hkeys
    rw [List.foldl_cons, ← List.singleton_append, without_append]
    exact (ih ((sheds_remove path t).keeps.distinctKeys hkeys)).trans (hfirst.without paths)

end Provisioning.Tree
