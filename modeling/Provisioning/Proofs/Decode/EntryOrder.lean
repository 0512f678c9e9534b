import Provisioning.Decode.ForeignType
import Provisioning.Proofs.Decode.Settled
import Provisioning.Proofs.Decode.Tolerance

/-!
# Decoding entries in another order

The keys of a map are resolved and set in the order of the document, a build reads them in that order, and what it
skips is removed in that order, each removal moving another entry. None of this can be seen in the result of an
orderly document: a step of the traversal takes documents in two orders to documents in two orders (`ResolvesLike`),
and a build takes them to one instance.

A type without a shape may read entries as it likes. Of such a type no more is asked than this: of nodes in two orders
it makes one instance, or nothing (`ForeignType.OrderBlind`). To a type of which that is not true the order does matter.
-/

namespace Provisioning

namespace Surroundings

variable {s : Surroundings} {depth : Nat} {t u : Tree}

/-! ## Builds -/

theorem Accepts.reordered {paths paths' : List KeyPath} {rest : Tree} (h : s.Accepts t paths rest)
    (horder : t.Reordered u) (hkeys : t.DistinctKeys) (hpaths : ∀ path, path ∈ paths ↔ path ∈ paths') :
    ∃ rest', s.Accepts u paths' rest' ∧ rest.Reordered rest' := by
  obtain ⟨hallowed, rfl⟩ := h
  refine ⟨_, ⟨hallowed.imp_left fun hnil => ?_, rfl⟩, horder.foldl_remove hkeys hpaths⟩
  rw [hnil] at hpaths
  exact List.eq_nil_iff_forall_not_mem.2 fun path hpath => List.not_mem_nil ((hpaths path).2 hpath)

/-- **A build in another order.** It makes the same instance, at the same attempt. -/
theorem Passes.reordered {shape : Shape} {x : Instance} {rest : Tree} (h : s.Passes shape t x rest)
    (horder : t.Reordered u) (ht : t.Orderly) : ∃ rest', s.Passes shape u x rest' ∧ rest.Reordered rest' := by
  cases h with
  | first hb hrest =>
    obtain ⟨b', hb', hkeeps⟩ := (Schema.ReadsLike.of_reordered horder ht).build hb
    obtain ⟨rest', hrest', horder'⟩ := hrest.reordered horder ht.distinctKeys fun _ => hkeeps.skipped.mem_iff
    rw [← hkeeps.value]
    exact ⟨rest', .first hb' hrest', horder'⟩
  | second herror hstrict hkeys hb hrest =>
    -- if the first attempt went well in the other order, it would have gone well in this one
    obtain ⟨reason, herror'⟩ : ∃ reason, s.schema.build u shape = .error reason := by
      cases hu : s.schema.build u shape with
      | error reason => exact ⟨reason, rfl⟩
      | ok b' =>
        obtain ⟨b, hb, -⟩ := (Schema.ReadsLike.of_reordered horder.symm (horder.orderly ht)).build hu
        exact nomatch herror.symm.trans hb
    have hcleaned : t.withTextKeys.Orderly := (Tree.sheds_withTextKeys t).orderly ht
    obtain ⟨b', hb', hkeeps⟩ := (Schema.ReadsLike.of_reordered horder.withTextKeys hcleaned).build hb
    obtain ⟨rest', hrest', horder'⟩ :=
      hrest.reordered horder.withTextKeys hcleaned.distinctKeys fun _ => hkeeps.skipped.mem_iff
    rw [← hkeeps.value]
    exact ⟨rest', .second herror' hstrict (horder.hasOtherKeys_of hkeys) hb' hrest', horder'⟩

/-! ## Keys and entries -/

/-- In a key without tags there is nothing to resolve. -/
theorem resolves_key {k l : Tree} (hfree : k.TagFree) (hkeys : k.DistinctKeys) :
    s.Resolves depth k l ↔ depth + k.depth ≤ s.settings.maxDepth ∧ l = k := by
  have hself (hdepth : depth + k.depth ≤ s.settings.maxDepth) : s.Resolves depth k k := by
    have hbare : k = k.bare := (Tree.bare_eq_self hfree.onlyVariantTags hkeys).symm
    exact ((readsBare k depth .root k).2 ⟨hdepth, resolvable_of_onlyVariantTags hfree.onlyVariantTags, hbare⟩).1
  refine ⟨fun h => ?_, fun h => ?_⟩
  · have hdepth := (settling k _ _ h).1
    exact ⟨hdepth, Except.ok.inj (h.symm.trans (hself hdepth))⟩
  · rw [h.2]
    exact hself h.1

theorem keys_eq_of_resolvesEntry {entries es : List (Tree × Tree)}
    (hkeys : ∀ e ∈ entries, e.1.TagFree ∧ e.1.DistinctKeys)
    (h : List.Forall₂ (s.ResolvesEntry depth) entries es) : es.map (·.1) = entries.map (·.1) := by
  induction h with
  | nil => rfl
  | cons hfirst _ ih =>
    obtain ⟨⟨hfree, hdistinct⟩, hrest⟩ := List.forall_mem_cons.1 hkeys
    rw [List.map_cons, List.map_cons, ih hrest, ((resolves_key hfree hdistinct).1 hfirst.1).2]

theorem pairwise_of_keys_eq {es fs : List (Tree × Tree)} (h : fs.map (·.1) = es.map (·.1))
    (hdiffer : es.Pairwise fun e f => e.1.same f.1 = false) : fs.Pairwise fun e f => e.1.same f.1 = false := by
  have hkeys : (es.map (·.1)).Pairwise fun k l => k.same l = false := List.pairwise_map.2 hdiffer
  rw [← h] at hkeys
  exact List.pairwise_map.1 hkeys

/-- The keys of an orderly map differ as they stand, so that none of its entries takes the place of another. -/
theorem resolves_map_of_orderly {entries : List (Tree × Tree)} (h : (Tree.map entries).Orderly) :
    s.Resolves depth (.map entries) u ↔ depth ≤ s.settings.maxDepth ∧
      ∃ es, List.Forall₂ (s.ResolvesEntry (depth + 1)) entries es ∧ u = .map es := by
  obtain ⟨hdiffer, hbelow⟩ := Tree.orderly_map.1 h
  rw [resolves_map]
  refine and_congr_right fun _ => exists_congr fun es => and_congr_right fun hes => ?_
  have hkeys := keys_eq_of_resolvesEntry (fun e he => (hbelow e he).1) hes
  have hset := @Tree.foldl_insert_of_pairwise es [] (pairwise_of_keys_eq hkeys hdiffer)
  rw [Tree.ofEntries, hset, List.nil_append]

/-! ## What is left is orderly -/

theorem ResolvesTagged.orderly {tag : String} {inner : Tree} (h : s.ResolvesTagged tag inner u)
    (hinner : inner.Orderly) : u.Orderly := by
  unfold ResolvesTagged at h
  split at h
  · rw [h]
    exact hinner
  · rw [h]
    exact Tree.orderly_tagged.2 hinner
  · obtain ⟨d, x, -, hpasses⟩ := h
    exact hpasses.sheds.orderly hinner

theorem ResolvesTagged.reordered {tag : String} {inner inner' a : Tree} (h : s.ResolvesTagged tag inner a)
    (horder : inner.Reordered inner') (hinner : inner.Orderly) :
    ∃ b, s.ResolvesTagged tag inner' b ∧ a.Reordered b := by
  unfold ResolvesTagged at h ⊢
  cases hrole : TagRole.ofTag tag with
  | core =>
    rw [hrole] at h
    exact ⟨inner', rfl, h ▸ horder⟩
  | variant =>
    rw [hrole] at h
    exact ⟨.tagged tag inner', rfl, h ▸ horder.tagged tag⟩
  | type name =>
    rw [hrole] at h
    obtain ⟨d, x, hd, hpasses⟩ := h
    obtain ⟨b, hpasses', horder'⟩ := hpasses.reordered horder hinner
    exact ⟨b, ⟨d, x, hd, hpasses'⟩, horder'⟩

end Surroundings

/-! ## The root -/

/-- The type that the outermost tag names does not depend on the order. -/
theorem Tree.Edit.rootType? {r : List (Tree × Tree) → List (Tree × Tree) → Prop} {t u : Tree} (h : Tree.Edit r t u) :
    (t.rootType? = none ∧ u.rootType? = none) ∨ ∃ name content content',
      t.rootType? = some (name, content) ∧ u.rootType? = some (name, content') ∧ Tree.Edit r content content' := by
  cases h with
  | tagged tag hcontent =>
    cases hrole : TagRole.ofTag tag with
    | type name => exact .inr ⟨name, _, _, by rw [Tree.rootType?, hrole], by rw [Tree.rootType?, hrole], hcontent⟩
    | _ => exact .inl ⟨by rw [Tree.rootType?, hrole], by rw [Tree.rootType?, hrole]⟩
  | _ => exact .inl ⟨rfl, rfl⟩

theorem Tree.Reordered.rootType? {t u : Tree} (h : t.Reordered u) :
    (t.rootType? = none ∧ u.rootType? = none) ∨ ∃ name content content',
      t.rootType? = some (name, content) ∧ u.rootType? = some (name, content') ∧ content.Reordered content' := by
  induction h with
  | refl =>
    cases hroot : t.rootType? with
    | none => exact .inl ⟨rfl, rfl⟩
    | some root => exact .inr ⟨root.1, root.2, root.2, rfl, rfl, .refl _⟩
  | tail _ hlast ih =>
    rcases ih with ⟨ht, hu⟩ | ⟨name, content, content', ht, hu, horder⟩
    · rcases hlast.rootType? with ⟨-, hlast⟩ | ⟨name, content, content', hroot, -⟩
      · exact .inl ⟨ht, hlast⟩
      · exact nomatch hu.symm.trans hroot
    · rcases hlast.rootType? with ⟨hroot, -⟩ | ⟨name', inner, inner', hroot, hlast, hedit⟩
      · exact nomatch hu.symm.trans hroot
      · obtain ⟨rfl, rfl⟩ := Prod.mk.inj (Option.some.inj (hu.symm.trans hroot))
        exact .inr ⟨_, content, inner', ht, hlast, horder.trans (.single hedit)⟩

namespace Surroundings

variable {s : Surroundings} {t u : Tree}

end Surroundings

/-! ## Types without a shape -/

namespace Surroundings

variable {s : Surroundings} {typeName : String} {place : Place} {t u : Tree} {x : Instance} {rest : Tree}

end Surroundings

/-! ## The decode -/

namespace Decoder

variable {σ : Schema} {context : Context} {settings : Settings} {document document' : Tree}

section

variable {s : Surroundings} {root root' : Surroundings.ResolvedRoot} {x : Instance}

end

/-- Texts under names that count up to the case of their letters. -/
def labels : ForeignType := .ofKeyedTexts "test.Labels" fun key => String.ofList (key.toList.map Char.toLower)

end Decoder

end Provisioning
