import Provisioning.Proofs.Schema.Skipped
import Provisioning.Proofs.Tree.EntryWays

/-!
# What a build skips is gone without it

The ways to the keys that a build skips are ways to entries that it sees, and none of them is left once these entries
are left out (`ways_of_build`): a later build of what is left cannot skip one of them again.
-/

namespace Provisioning

open KeyPath

variable {σ : Schema}

/-- The ways that the paths show, and those that are left without what they lead to, are different ways of the tree. -/
def TakesWays (paths : List KeyPath) (t : Tree) : Prop :=
  (paths.map shown : Multiset KeyPath) + (t.without paths).reportable ≤ t.reportable

namespace Schema

/-- Whatever a node is built or read as, what it skips is taken from its ways. -/
structure TakesSkipped (σ : Schema) (t : Tree) : Prop where
  build : ∀ {shape : Shape} {b : Built Instance}, σ.build t shape = .ok b → TakesWays b.skipped t
  parts : ∀ {reader : PartsReader} {b : Built Instance}, ReadsParts σ reader t b → TakesWays b.skipped t

theorem takesWays_nil (t : Tree) : TakesWays [] t := by
  rw [TakesWays, Tree.without_nil]
  exact (zero_add _).le

theorem takesWays_items {ts : List Tree} {shapes : List Shape} {bs : List (Built Instance)} {paths : List KeyPath}
    (ih : ∀ t ∈ ts, σ.TakesSkipped t) (h : ReadsItems σ ts shapes bs) :
    ∀ position, (∀ i b, bs[i]? = some b → after (.index (position + i)) paths = b.skipped) →
      ((skippedInItems position bs).map shown : Multiset KeyPath) +
        Tree.itemsReportable position (Tree.itemsWithout paths position ts) ≤ Tree.itemsReportable position ts := by
  induction h with
  | nil => exact fun _ _ => le_refl _
  | @cons t shape b ts shapes bs hfirst _ ihrest =>
    intro position hafter
    obtain ⟨ht, hts⟩ := List.forall_mem_cons.1 ih
    have hposition := hafter 0 b rfl
    rw [Nat.add_zero] at hposition
    have hrest := ihrest hts (position + 1) fun i c hc => by
      rw [Nat.add_right_comm, Nat.add_assoc]
      exact hafter (i + 1) c hc
    have htaken := Multiset.map_le_map (f := (Step.index position :: ·)) (ht.build hfirst)
    rw [Multiset.map_add] at htaken
    rw [skippedInItems, Built.below, List.map_append, ← Multiset.coe_add, map_shown_index, Tree.itemsWithout, hposition,
      Tree.itemsReportable, Tree.itemsReportable, add_add_add_comm]
    exact add_le_add htaken hrest

theorem takesWays_entries {wants : String → Option (String × Shape)} {es : List (Tree × Tree)}
    {rs : List EntryReading} {paths : List KeyPath} (htexts : ∀ e ∈ es, e.1.isTextKey = true)
    (hlocated : ∀ e ∈ es, σ.LocatesSkipped e.2) (ih : ∀ e ∈ es, σ.TakesSkipped e.2)
    (hafter : ∀ e r, (e, r) ∈ es.zip rs → ∀ s, e.1 = .text s →
      after (.key s) paths = after (.key s) r.skipped)
    (h : ReadsEntries σ wants es rs) :
    ((EntryReading.allSkipped rs).map shown : Multiset KeyPath) +
      Tree.entriesReportable (Tree.entriesWithout paths es) ≤ Tree.entriesReportable es := by
  induction h with
  | nil => exact le_refl _
  | @cons e r es rs he _ ihrest =>
    rw [List.forall_mem_cons] at htexts hlocated ih
    have hrest := ihrest htexts.2 hlocated.2 ih.2 fun f r' hf => hafter f r' (List.mem_cons_of_mem _ hf)
    have hfirst := hafter e r List.mem_cons_self
    rw [EntryReading.allSkipped_cons, List.map_append, ← Multiset.coe_add]
    cases he with
    | @wanted k v key _ _ b hkey hwants hbuild =>
      obtain rfl := Tree.eq_text_of_untagged htexts.1 hkey
      have hbelow : after (.key key) paths = b.skipped := (hfirst key rfl).trans after_map_cons
      have hnil : [] ∉ b.skipped := fun hmem =>
        not_leadsTo_nil ((hlocated.1.build hbuild).leads [] hmem)
      have htaken := Multiset.map_le_map (f := (Step.key key :: ·)) (ih.1.build hbuild)
      rw [Multiset.map_add] at htaken
      rw [Tree.entriesWithout, hbelow, if_neg hnil, Tree.entriesReportable, Tree.entriesReportable, Built.below,
        map_shown_key, add_add_add_comm]
      refine add_le_add ?_ hrest
      rw [fromKey, add_left_comm]
      exact add_le_add_right htaken _
    | @unwanted k v key hkey hwants =>
      obtain rfl := Tree.eq_text_of_untagged htexts.1 hkey
      have hbelow : after (.key key) paths = [[]] := (hfirst key rfl).trans (@after_map_cons _ [[]])
      rw [Tree.entriesWithout, hbelow, if_pos List.mem_cons_self, Tree.entriesReportable, add_assoc]
      exact add_le_add le_self_add hrest

theorem takesSkipped_list {ts : List Tree} (ih : ∀ t ∈ ts, σ.TakesSkipped t) : σ.TakesSkipped (.list ts) := by
  have hparts {reader : PartsReader} {b : Built Instance} (h : ReadsParts σ reader (.list ts) b) :
      TakesWays b.skipped (.list ts) := by
    cases h with
    | items finish hbs => exact takesWays_items ih hbs 0 fun i b hb => after_skippedInItems hb
  refine ⟨fun h => ?_, hparts⟩
  obtain ⟨reader, -, h⟩ := build_list_eq_ok_iff.1 h
  exact hparts h

theorem takesSkipped_map {es : List (Tree × Tree)} (hkeys : (Tree.map es).Addressable)
    (ih : ∀ e ∈ es, σ.TakesSkipped e.2) : σ.TakesSkipped (.map es) := by
  have hparts {reader : PartsReader} {b : Built Instance} (h : ReadsParts σ reader (.map es) b) :
      TakesWays b.skipped (.map es) := by
    cases h with
    | entries hrs _ =>
      obtain ⟨htexts, hnodup⟩ := hkeys.textKeys fun e he => exists_key_of_mem hrs he
      exact takesWays_entries htexts (fun e he => locatesSkipped (hkeys.value he)) ih
        (fun e r hmem s hs => after_allSkipped htexts hnodup hrs hmem hs) hrs
  refine ⟨fun h => ?_, hparts⟩
  obtain ⟨reader, -, h⟩ := build_map_eq_ok_iff.1 h
  exact hparts h

theorem takesSkipped_tagged {tag : String} {content : Tree} (ih : σ.TakesSkipped content) :
    σ.TakesSkipped (.tagged tag content) := by
  refine ⟨fun {shape _} h => ?_, fun h => by cases h⟩
  cases build_tagged_eq_ok_iff.1 h with
  | scalar hscalar => cases hscalar
  | parts _ hparts => cases hparts
  | bare => exact takesWays_nil _
  | one _ _ hbuild =>
    have hcontent := ih.build hbuild
    rw [TakesWays] at hcontent ⊢
    dsimp only [Built.below]
    rw [map_shown_variant, Tree.without, map_belowTag_variant]
    exact hcontent
  | payload _ _ _ hparts =>
    have hcontent := ih.parts hparts
    rw [TakesWays, Tree.without, map_belowTag_of_ne hparts.ne_variant]
    exact hcontent
  | through hshape hbuild =>
    have hbase : ∀ name, shape.base.base ≠ .choice name := by rwa [Shape.base_base]
    have hcontent := ih.build hbuild
    rw [TakesWays, Tree.without, map_belowTag_of_ne (ne_variant_of_build hbase hbuild)]
    exact hcontent

theorem takesSkipped {t : Tree} (hkeys : t.Addressable) : σ.TakesSkipped t := by
  induction t using Tree.induct with
  | null | flag | number | text =>
    refine ⟨fun h => ?_, fun h => by cases h⟩
    rw [skipped_of_isScalar rfl h]
    exact takesWays_nil _
  | list ts ih => exact takesSkipped_list fun t ht => ih t ht (Tree.addressable_list.1 hkeys t ht)
  | map es ih => exact takesSkipped_map hkeys fun e he => (ih e he).2 (hkeys.value he)
  | tagged tag content ih => exact takesSkipped_tagged (ih (Tree.addressable_tagged.1 hkeys))

/-- **What is skipped is not left.** -/
theorem ways_of_build {t : Tree} {shape : Shape} {b : Built Instance} (hkeys : t.Addressable)
    (h : σ.build t shape = .ok b) :
    (b.skipped.map shown : Multiset KeyPath) + (t.without b.skipped).reportable ≤ t.reportable :=
  (takesSkipped hkeys).build h

end Schema

end Provisioning
