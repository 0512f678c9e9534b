import Provisioning.Proofs.Decode.Results
import Provisioning.Proofs.Tree.Dropping
import Provisioning.Proofs.Tree.Insertion

/-!
# What is left of a node once its tags are resolved

Strict or tolerant, the traversal of a node gives a tree in which there is nothing more to resolve: its tags all
name variants, no map has a key twice, and it is no deeper than the node (`Tree.Settles`). A tolerant traversal may
have dropped entries on the way, but dropping spoils none of this.
-/

namespace Provisioning

namespace Tree

/-- The second tree is what may be left of the first one: nothing is left to resolve, nothing lies deeper than
before, and as a map key it has the label of the first one without its tags. -/
structure Settles (t u : Tree) : Prop where
  onlyVariantTags : u.OnlyVariantTags
  distinctKeys : u.DistinctKeys
  depth_le : u.depth ≤ t.depth
  label_eq : u.label = t.bare.label

/-- The entries of a map, less those that their keys make equal and in whatever order, settle as a map if they settle
one by one. -/
theorem settles_map {es fs : List (Tree × Tree)}
    (h : ∀ f ∈ fs, ∃ e ∈ es, Settles e.1 f.1 ∧ Settles e.2 f.2) : Settles (.map es) (ofEntries fs) := by
  have hdepth := entriesDepth_le_iff.1 (Nat.le_refl (entriesDepth es))
  have hall : ∀ f ∈ fs,
      (f.1.OnlyVariantTags ∧ f.1.DistinctKeys ∧ f.1.depth + 1 ≤ entriesDepth es) ∧
        (f.2.OnlyVariantTags ∧ f.2.DistinctKeys ∧ f.2.depth + 1 ≤ entriesDepth es) := by
    intro f hf
    obtain ⟨e, he, hkey, hvalue⟩ := h f hf
    have hk := hkey.depth_le
    have hv := hvalue.depth_le
    have := hdepth e he
    exact ⟨⟨hkey.onlyVariantTags, hkey.distinctKeys, by omega⟩,
      hvalue.onlyVariantTags, hvalue.distinctKeys, by omega⟩
  have hset := @forall_mem_foldl_insert
    (fun k => k.OnlyVariantTags ∧ k.DistinctKeys ∧ k.depth + 1 ≤ entriesDepth es)
    (fun v => v.OnlyVariantTags ∧ v.DistinctKeys ∧ v.depth + 1 ≤ entriesDepth es) fs hall [] (by simp)
  refine ⟨?_, ?_, ?_, rfl⟩
  · exact onlyVariantTags_map.2 fun f hf => ⟨(hset f hf).1.1, (hset f hf).2.1⟩
  · refine distinctKeys_map.2 ⟨pairwise_foldl_insert fs .nil, fun f hf => ?_⟩
    exact ⟨(hset f hf).1.2.1, (hset f hf).2.2.1⟩
  · exact entriesDepth_le_iff.2 fun f hf => ⟨(hset f hf).1.2.2, (hset f hf).2.2.2⟩

theorem settles_list {ts us : List Tree} (h : ∀ u ∈ us, ∃ t ∈ ts, Settles t u) :
    Settles (.list ts) (.list us) := by
  have hdepth := itemsDepth_le_iff.1 (Nat.le_refl (itemsDepth ts))
  refine ⟨?_, ?_, ?_, rfl⟩
  · refine onlyVariantTags_list.2 fun u hu => ?_
    obtain ⟨t, -, hsettles⟩ := h u hu
    exact hsettles.onlyVariantTags
  · refine distinctKeys_list.2 fun u hu => ?_
    obtain ⟨t, -, hsettles⟩ := h u hu
    exact hsettles.distinctKeys
  · show itemsDepth us ≤ itemsDepth ts
    refine itemsDepth_le_iff.2 fun u hu => ?_
    obtain ⟨t, ht, hsettles⟩ := h u hu
    have hle := hsettles.depth_le
    have := hdepth t ht
    omega

/-- A tag that is resolved leaves what its content leaves. -/
theorem Settles.of_content {tag : String} {content u : Tree} (hrole : TagRole.ofTag tag ≠ .variant)
    (h : Settles content u) : Settles (.tagged tag content) u := by
  have hbare : (Tree.tagged tag content).bare = content.bare := by
    rw [bare]
    split
    · exact absurd ‹_› hrole
    · rfl
  have hle := h.depth_le
  refine ⟨h.onlyVariantTags, h.distinctKeys, ?_, ?_⟩
  · rw [depth]
    omega
  · rw [h.label_eq, hbare]

/-- A tag that names a variant stays. -/
theorem Settles.variant {tag : String} {content u : Tree} (hrole : TagRole.ofTag tag = .variant)
    (h : Settles content u) : Settles (.tagged tag content) (.tagged tag u) := by
  refine ⟨onlyVariantTags_tagged.2 ⟨hrole, h.onlyVariantTags⟩, distinctKeys_tagged.2 h.distinctKeys,
    Nat.succ_le_succ h.depth_le, ?_⟩
  rw [bare, hrole]
  rfl

/-- Entries may be dropped. -/
theorem Settles.trans_sheds {t u w : Tree} (h : Settles t u) (hsheds : Sheds u w) : Settles t w where
  onlyVariantTags := hsheds.keeps.onlyVariantTags h.onlyVariantTags
  distinctKeys := hsheds.keeps.distinctKeys h.distinctKeys
  depth_le := Nat.le_trans hsheds.keeps.depth_le h.depth_le
  label_eq := hsheds.keeps.label_eq.trans h.label_eq

end Tree

namespace Surroundings

variable {s : Surroundings} {depth : Nat}

/-- However often a node is built, entries are all that it loses. -/
theorem Passes.sheds {shape : Shape} {node rest : Tree} {x : Instance} (h : s.Passes shape node x rest) :
    Tree.Sheds node rest := by
  cases h with
  | first _ hrest =>
    rw [hrest.2]
    exact Tree.sheds_foldl_remove _ node
  | second _ _ _ _ hrest =>
    rw [hrest.2]
    exact (Tree.sheds_withTextKeys node).trans (Tree.sheds_foldl_remove _ _)

/-- What a tag leaves of a content that has settled has settled. -/
theorem ResolvesTagged.settles {tag : String} {content inner u : Tree} (h : s.ResolvesTagged tag inner u)
    (hinner : Tree.Settles content inner) : Tree.Settles (.tagged tag content) u := by
  unfold ResolvesTagged at h
  cases hrole : TagRole.ofTag tag with
  | core =>
    rw [hrole] at h
    obtain rfl := h
    exact hinner.of_content (by simp [hrole])
  | variant =>
    rw [hrole] at h
    obtain rfl := h
    exact hinner.variant hrole
  | type name =>
    rw [hrole] at h
    obtain ⟨d, x, -, hpasses⟩ := h
    -- a build may drop entries of what was resolved before it
    exact (hinner.trans_sheds hpasses.sheds).of_content (by simp [hrole])

/-! ## The whole traversal -/

/-- Whenever the traversal of a node succeeds, nothing lay too deep, and what it gives has settled. -/
def Settling (s : Surroundings) (t : Tree) : Prop :=
  ∀ depth u, s.Resolves depth t u → depth + t.depth ≤ s.settings.maxDepth ∧ Tree.Settles t u

theorem settling_of_isScalar {t : Tree} (hscalar : t.isScalar = true) : s.Settling t := by
  intro depth u h
  obtain ⟨hdepth, rfl⟩ := (resolves_of_isScalar hscalar).1 h
  have hplain := Tree.plain_of_isScalar hscalar
  have hlevel : u.depth = 0 := by
    cases u with
    | list | map | tagged => exact Bool.noConfusion hscalar
    | _ => rfl
  refine ⟨?_, hplain.onlyVariantTags, hplain.distinctKeys, Nat.le_refl _, ?_⟩
  · rw [hlevel]
    exact hdepth
  · rw [hplain.bare_eq_self]

theorem settling_list {items : List Tree} (ih : ∀ t ∈ items, s.Settling t) : s.Settling (.list items) := by
  intro depth u h
  obtain ⟨hle, us, hus, rfl⟩ := resolves_list.1 h
  obtain ⟨hitems, hresults⟩ := forall₂_partners hus
  have hmax : Tree.itemsDepth items ≤ s.settings.maxDepth - depth := by
    refine Tree.itemsDepth_le_iff.2 fun t ht => ?_
    obtain ⟨u, -, hu⟩ := hitems t ht
    have := (ih t ht _ _ hu).1
    omega
  refine ⟨by rw [Tree.depth]; omega, Tree.settles_list fun u hu => ?_⟩
  obtain ⟨t, ht, htu⟩ := hresults u hu
  exact ⟨t, ht, (ih t ht _ _ htu).2⟩

/-- Keys may have become equal, so only the entries that were set are told apart. -/
theorem settling_map {entries : List (Tree × Tree)} (ih : ∀ e ∈ entries, s.Settling e.1 ∧ s.Settling e.2) :
    s.Settling (.map entries) := by
  intro depth u h
  obtain ⟨hle, es, hes, rfl⟩ := resolves_map.1 h
  obtain ⟨hentries, hresults⟩ := forall₂_partners hes
  have hmax : Tree.entriesDepth entries ≤ s.settings.maxDepth - depth := by
    refine Tree.entriesDepth_le_iff.2 fun e he => ?_
    obtain ⟨f, -, hkey, hvalue⟩ := hentries e he
    have := ((ih e he).1 _ _ hkey).1
    have := ((ih e he).2 _ _ hvalue).1
    omega
  refine ⟨by rw [Tree.depth]; omega, Tree.settles_map fun f hf => ?_⟩
  obtain ⟨e, he, hkey, hvalue⟩ := hresults f hf
  exact ⟨e, he, ((ih e he).1 _ _ hkey).2, ((ih e he).2 _ _ hvalue).2⟩

/-- **What any successful traversal leaves.** -/
theorem settling (t : Tree) : s.Settling t := by
  induction t using Tree.induct with
  | null | flag | number | text => exact settling_of_isScalar rfl
  | list items ih => exact settling_list ih
  | map entries ih => exact settling_map ih
  | tagged tag content ih =>
    intro depth u h
    obtain ⟨hle, inner, hinner, htag⟩ := resolves_tagged.1 h
    obtain ⟨hdepth, hsettles⟩ := ih _ _ hinner
    exact ⟨by rw [Tree.depth]; omega, htag.settles hsettles⟩

/-- What is left of a document once its tags are resolved, be there a type tag at its root or not. -/
def ResolvedRoot.tree : ResolvedRoot → Tree
  | .typed _ content => content
  | .plain tree => tree

/-- A document settles as a whole, less a type tag at its root. -/
theorem settled_of_resolveRoot {document : Tree} {resolved : ResolvedRoot}
    (h : (s.resolveRoot document).outcome = .ok resolved) :
    document.depth ≤ s.settings.maxDepth ∧ Tree.Settles document resolved.tree := by
  cases hroot : document.rootType? with
  | none =>
    rw [resolveRoot_of_none hroot] at h
    obtain ⟨tree, htree, h⟩ := Traced.outcome_bind_eq_ok.1 h
    obtain rfl := Except.ok.inj h
    obtain ⟨hdepth, hsettles⟩ := settling document _ _ htree
    exact ⟨by omega, hsettles⟩
  | some root =>
    rw [resolveRoot_of_type hroot] at h
    obtain ⟨tag, hrole, rfl⟩ := Tree.eq_of_rootType? hroot
    obtain ⟨d, -, h⟩ := Traced.outcome_bind_eq_ok.1 h
    obtain ⟨content, hcontent, h⟩ := Traced.outcome_bind_eq_ok.1 h
    obtain rfl := Except.ok.inj h
    -- the tag of the root is a level, and its content starts below it
    obtain ⟨hdepth, hsettles⟩ := settling root.2 _ _ hcontent
    exact ⟨by rw [Tree.depth]; omega, hsettles.of_content (by simp [hrole])⟩

theorem settles_of_resolveRoot {document tree : Tree}
    (h : (s.resolveRoot document).outcome = .ok (.plain tree)) :
    document.depth ≤ s.settings.maxDepth ∧ Tree.Settles document tree := settled_of_resolveRoot h

end Surroundings

end Provisioning
