import Mathlib.Data.List.Nodup
import Provisioning.Proofs.Schema.Reading
import Provisioning.Proofs.Tree.Pruning

/-!
# The keys a build skips

Where text keys have no tags, the ways to the skipped keys are all different, and each leads to an entry
(`located_of_build`). Without these entries a plain document builds into the same value, and nothing is skipped
any more (`build_without_skipped`).
-/

namespace Provisioning

open KeyPath
open Provisioning.Tree (LeadsTo)

variable {σ : Schema}

/-! ## Paths through lists -/

theorem mem_skippedInItems {p : KeyPath} {bs : List (Built Instance)} :
    ∀ {position : Nat}, p ∈ skippedInItems position bs →
      ∃ i b q, bs[i]? = some b ∧ q ∈ b.skipped ∧ p = .index (position + i) :: q := by
  induction bs with
  | nil => exact fun h => absurd h List.not_mem_nil
  | cons b bs ih =>
    intro position h
    rcases List.mem_append.1 h with hfirst | hrest
    · obtain ⟨q, hq, rfl⟩ := List.mem_map.1 hfirst
      exact ⟨0, b, q, rfl, hq, rfl⟩
    · obtain ⟨i, c, q, hc, hq, rfl⟩ := ih hrest
      exact ⟨i + 1, c, q, hc, hq, by rw [Nat.add_right_comm, Nat.add_assoc]⟩

theorem nodup_map_cons {step : Step} {paths : List KeyPath} (h : paths.Nodup) :
    (paths.map (step :: ·)).Nodup :=
  List.Nodup.map (fun _ _ hcons => (List.cons.inj hcons).2) h

theorem nodup_skippedInItems {bs : List (Built Instance)} (h : ∀ b ∈ bs, b.skipped.Nodup) :
    ∀ position, (skippedInItems position bs).Nodup := by
  induction bs with
  | nil => exact fun _ => List.nodup_nil
  | cons b bs ih =>
    intro position
    obtain ⟨hfirst, hrest⟩ := List.forall_mem_cons.1 h
    refine List.nodup_append.2 ⟨nodup_map_cons hfirst, ih hrest _, fun p hp q hq heq => ?_⟩
    obtain ⟨p', -, rfl⟩ := List.mem_map.1 hp
    obtain ⟨i, c, q', -, -, rfl⟩ := mem_skippedInItems hq
    have := Step.index.inj (List.cons.inj heq).1
    omega

/-- Of all that a list skips, what an item skips is what begins with its position. -/
theorem after_skippedInItems {bs : List (Built Instance)} {b : Built Instance} :
    ∀ {i position : Nat}, bs[i]? = some b →
      after (.index (position + i)) (skippedInItems position bs) = b.skipped := by
  induction bs with
  | nil => exact fun h => absurd h (by simp)
  | cons c bs ih =>
    intro i position h
    rw [skippedInItems, after_append]
    cases i with
    | zero =>
      obtain rfl := Option.some.inj h
      have hrest : after (.index position) (skippedInItems (position + 1) bs) = [] := by
        refine after_eq_nil fun p hp rest hrest => ?_
        obtain ⟨j, d, q, -, -, rfl⟩ := mem_skippedInItems hp
        have := Step.index.inj (List.cons.inj hrest).1
        omega
      rw [Nat.add_zero, hrest, List.append_nil]
      exact after_map_cons
    | succ i =>
      have hfirst : after (.index (position + (i + 1))) (c.below (.index position)).skipped = [] := by
        refine after_eq_nil fun p hp rest hrest => ?_
        obtain ⟨q, -, rfl⟩ := List.mem_map.1 hp
        have := Step.index.inj (List.cons.inj hrest).1
        omega
      rw [hfirst, List.nil_append, ← Nat.add_assoc, Nat.add_right_comm]
      exact ih h

/-! ## Paths through maps -/

theorem Shape.base_base (shape : Shape) : shape.base.base = shape.base := by
  induction shape with
  | optional of ih => exact ih
  | _ => rfl

theorem Tree.eq_text_of_untagged {k : Tree} {key : String} (htext : k.isTextKey = true)
    (h : k.untagged = .text key) : k = .text key := by
  obtain ⟨s, rfl⟩ := Tree.isTextKey_iff.1 htext
  exact h

namespace Schema

/-- Only null is built differently if a value may be absent. -/
theorem build_base {shape : Shape} {t : Tree} (h : t ≠ .null) : σ.build t shape.base = σ.build t shape := by
  cases t with
  | null => exact absurd rfl h
  | _ => unfold build; rw [Shape.base_base]

/-- Each of the paths that entries skip begins with the key of an entry. -/
theorem exists_of_mem_allSkipped {wants : String → Option (String × Shape)} {es : List (Tree × Tree)}
    {rs : List EntryReading} (h : ReadsEntries σ wants es rs) {p : KeyPath}
    (hp : p ∈ EntryReading.allSkipped rs) :
    ∃ e ∈ es, ∃ r, ReadsEntry σ wants e r ∧ p ∈ r.skipped := by
  induction h with
  | nil => exact absurd hp List.not_mem_nil
  | @cons e r es rs hentry _ ih =>
    rcases List.mem_append.1 hp with hfirst | hrest
    · exact ⟨e, List.mem_cons_self, r, hentry, hfirst⟩
    · obtain ⟨f, hf, r', hr', hpr⟩ := ih hrest
      exact ⟨f, List.mem_cons_of_mem _ hf, r', hr', hpr⟩

/-- Lists and maps add no step to a variant's content. -/
theorem ReadsParts.ne_variant {reader : PartsReader} {t : Tree} {b : Built Instance}
    (h : ReadsParts σ reader t b) : ∀ p ∈ b.skipped, ∀ rest, p ≠ .variant :: rest := by
  intro p hp rest hrest
  cases h with
  | items finish hbs =>
    obtain ⟨i, c, q, -, -, rfl⟩ := mem_skippedInItems hp
    cases hrest
  | entries hrs hfinish =>
    obtain ⟨e, -, r, hentry, hpr⟩ := exists_of_mem_allSkipped hrs hp
    obtain ⟨key, -, hkey⟩ := hentry.exists_key
    obtain ⟨q, rfl⟩ := hkey p hpr
    cases hrest

/-- Nor does a tag that a shape looks through. -/
theorem ne_variant_of_build {t : Tree} {shape : Shape} (hshape : ∀ name, shape.base ≠ .choice name) :
    ∀ {b : Built Instance}, σ.build t shape = .ok b → ∀ p ∈ b.skipped, ∀ rest, p ≠ .variant :: rest := by
  induction t using Tree.induct generalizing shape with
  | tagged tag content ih =>
    intro b h
    have hcontent := (build_tagged_of_ne_choice hshape).1 h
    rw [← Shape.base_base] at hshape
    exact ih hshape hcontent
  | _ =>
    intro b h
    cases build_eq_ok_iff.1 h with
    | scalar => exact fun p hp => absurd hp List.not_mem_nil
    | parts _ hparts => exact hparts.ne_variant

end Schema

/-! ## Where skipped keys are -/

/-- The paths are all different and lead to entries. -/
structure Located (paths : List KeyPath) (t : Tree) : Prop where
  nodup : paths.Nodup
  leads : ∀ p ∈ paths, t.LeadsTo p

namespace Schema

/-- Whatever a node is built or read as, the keys it skips are located. -/
structure LocatesSkipped (σ : Schema) (t : Tree) : Prop where
  build : ∀ {shape : Shape} {b : Built Instance}, σ.build t shape = .ok b → Located b.skipped t
  parts : ∀ {reader : PartsReader} {b : Built Instance}, ReadsParts σ reader t b → Located b.skipped t

theorem readsItems_getElem? {ts : List Tree} {shapes : List Shape} {bs : List (Built Instance)}
    (h : ReadsItems σ ts shapes bs) :
    ∀ {i : Nat} {b : Built Instance}, bs[i]? = some b → ∃ t shape, ts[i]? = some t ∧ σ.build t shape = .ok b := by
  induction h with
  | nil => exact fun h => absurd h (by simp)
  | @cons t shape b ts shapes bs hfirst _ ih =>
    intro i c hc
    cases i with
    | zero =>
      obtain rfl := Option.some.inj hc
      exact ⟨t, shape, rfl, hfirst⟩
    | succ i => exact ih hc

theorem located_items {ts : List Tree} {shapes : List Shape} {bs : List (Built Instance)}
    (ih : ∀ t ∈ ts, σ.LocatesSkipped t) (h : ReadsItems σ ts shapes bs) :
    Located (skippedInItems 0 bs) (.list ts) := by
  refine ⟨nodup_skippedInItems (fun b hb => ?_) 0, fun p hp => ?_⟩
  · obtain ⟨i, hi⟩ := List.mem_iff_getElem?.1 hb
    obtain ⟨t, shape, ht, hbuild⟩ := readsItems_getElem? h hi
    exact ((ih t (List.mem_of_getElem? ht)).build hbuild).nodup
  · obtain ⟨i, b, q, hi, hq, rfl⟩ := mem_skippedInItems hp
    obtain ⟨t, shape, ht, hbuild⟩ := readsItems_getElem? h hi
    rw [Nat.zero_add]
    exact .index ht (((ih t (List.mem_of_getElem? ht)).build hbuild).leads q hq)

theorem located_entry {wants : String → Option (String × Shape)} {es : List (Tree × Tree)} {e : Tree × Tree}
    {r : EntryReading} (he : e ∈ es) (htext : e.1.isTextKey = true) (ih : σ.LocatesSkipped e.2)
    (h : ReadsEntry σ wants e r) : Located r.skipped (.map es) := by
  cases h with
  | wanted hkey _ hbuild =>
    obtain rfl := Tree.eq_text_of_untagged htext hkey
    have hv := ih.build hbuild
    refine ⟨nodup_map_cons hv.nodup, fun p hp => ?_⟩
    obtain ⟨q, hq, rfl⟩ := List.mem_map.1 hp
    exact .key he (hv.leads q hq)
  | unwanted hkey _ =>
    obtain rfl := Tree.eq_text_of_untagged htext hkey
    refine ⟨List.nodup_singleton _, fun p hp => ?_⟩
    obtain rfl := List.mem_singleton.1 hp
    exact .here he

theorem nodup_allSkipped {wants : String → Option (String × Shape)} {es : List (Tree × Tree)}
    {rs : List EntryReading} (htexts : ∀ e ∈ es, e.1.isTextKey = true) (hnodup : (es.map (·.1)).Nodup)
    (hentry : ∀ e ∈ es, ∀ r, ReadsEntry σ wants e r → r.skipped.Nodup) (h : ReadsEntries σ wants es rs) :
    (EntryReading.allSkipped rs).Nodup := by
  induction h with
  | nil => exact List.nodup_nil
  | @cons e r es rs he hrs ih =>
    rw [List.map_cons, List.nodup_cons] at hnodup
    rw [List.forall_mem_cons] at htexts hentry
    refine List.nodup_append.2 ⟨hentry.1 r he, ih htexts.2 hnodup.2 hentry.2, fun p hp q hq heq => ?_⟩
    -- a path of this entry begins with its key, one of the others with the key of another entry
    obtain ⟨key, hkey, hpaths⟩ := he.exists_key
    obtain ⟨f, hf, r', hr', hqr⟩ := exists_of_mem_allSkipped hrs hq
    obtain ⟨other, hother, hothers⟩ := hr'.exists_key
    obtain ⟨p', rfl⟩ := hpaths p hp
    obtain ⟨q', rfl⟩ := hothers q hqr
    obtain rfl := Step.key.inj (List.cons.inj heq).1
    refine hnodup.1 (List.mem_map.2 ⟨f, hf, ?_⟩)
    rw [Tree.eq_text_of_untagged htexts.1 hkey, Tree.eq_text_of_untagged (htexts.2 f hf) hother]

theorem located_entries {wants : String → Option (String × Shape)} {es : List (Tree × Tree)}
    {rs : List EntryReading} (hkeys : (Tree.map es).Addressable) (ih : ∀ e ∈ es, σ.LocatesSkipped e.2)
    (h : ReadsEntries σ wants es rs) : Located (EntryReading.allSkipped rs) (.map es) := by
  obtain ⟨htexts, hnodup⟩ := hkeys.textKeys fun e he => exists_key_of_mem h he
  have hentry (e) (he : e ∈ es) (r) (hr : ReadsEntry σ wants e r) : Located r.skipped (.map es) :=
    located_entry he (htexts e he) (ih e he) hr
  refine ⟨nodup_allSkipped htexts hnodup (fun e he r hr => (hentry e he r hr).nodup) h, fun p hp => ?_⟩
  obtain ⟨e, he, r, hr, hpr⟩ := exists_of_mem_allSkipped h hp
  exact (hentry e he r hr).leads p hpr

/-- Through the tag of a variant that carries one value the paths take a step. -/
theorem located_variant {paths : List KeyPath} {tag : String} {content : Tree} (h : Located paths content) :
    Located (paths.map (.variant :: ·)) (.tagged tag content) := by
  refine ⟨nodup_map_cons h.nodup, fun p hp => ?_⟩
  obtain ⟨q, hq, rfl⟩ := List.mem_map.1 hp
  exact .variant (h.leads q hq)

/-- Through every other tag they lead unchanged. -/
theorem located_through {paths : List KeyPath} {tag : String} {content : Tree}
    (hpaths : ∀ p ∈ paths, ∀ rest, p ≠ .variant :: rest) (h : Located paths content) :
    Located paths (.tagged tag content) :=
  ⟨h.nodup, fun p hp => .through (hpaths p hp) (h.leads p hp)⟩

theorem locatesSkipped_list {ts : List Tree} (ih : ∀ t ∈ ts, σ.LocatesSkipped t) :
    σ.LocatesSkipped (.list ts) := by
  have hparts {reader : PartsReader} {b : Built Instance} (h : ReadsParts σ reader (.list ts) b) :
      Located b.skipped (.list ts) := by
    cases h with
    | items finish hbs => exact located_items ih hbs
  refine ⟨fun h => ?_, hparts⟩
  obtain ⟨reader, -, h⟩ := build_list_eq_ok_iff.1 h
  exact hparts h

theorem locatesSkipped_map {es : List (Tree × Tree)} (hkeys : (Tree.map es).Addressable)
    (ih : ∀ e ∈ es, σ.LocatesSkipped e.2) : σ.LocatesSkipped (.map es) := by
  have hparts {reader : PartsReader} {b : Built Instance} (h : ReadsParts σ reader (.map es) b) :
      Located b.skipped (.map es) := by
    cases h with
    | entries hrs _ => exact located_entries hkeys ih hrs
  refine ⟨fun h => ?_, hparts⟩
  obtain ⟨reader, -, h⟩ := build_map_eq_ok_iff.1 h
  exact hparts h

theorem locatesSkipped_tagged {tag : String} {content : Tree} (ih : σ.LocatesSkipped content) :
    σ.LocatesSkipped (.tagged tag content) := by
  refine ⟨fun h => ?_, fun h => by cases h⟩
  cases build_tagged_eq_ok_iff.1 h with
  | scalar hscalar => cases hscalar
  | parts _ hparts => cases hparts
  | bare => exact ⟨List.nodup_nil, fun p hp => absurd hp List.not_mem_nil⟩
  | one _ _ hbuild => exact located_variant (ih.build hbuild)
  | payload _ _ _ hparts =>
    -- the content is read in parts, and parts never start with a step through a tag
    have hlocated := ih.parts hparts
    exact located_through hparts.ne_variant hlocated
  | through hshape hbuild =>
    have hlocated := ih.build hbuild
    rw [← Shape.base_base] at hshape
    exact located_through (ne_variant_of_build hshape hbuild) hlocated

theorem locatesSkipped {t : Tree} (hkeys : t.Addressable) : σ.LocatesSkipped t := by
  induction t using Tree.induct with
  | null | flag | number | text =>
    refine ⟨fun h => ?_, fun h => ?_⟩
    · rw [skipped_of_isScalar rfl h]
      exact ⟨List.nodup_nil, fun p hp => absurd hp List.not_mem_nil⟩
    · cases h
  | list ts ih => exact locatesSkipped_list fun t ht => ih t ht (Tree.addressable_list.1 hkeys t ht)
  | map es ih => exact locatesSkipped_map hkeys fun e he => (ih e he).2 (hkeys.value he)
  | tagged tag content ih => exact locatesSkipped_tagged (ih (Tree.addressable_tagged.1 hkeys))

/-- **Skipped keys are located.** -/
theorem located_of_build {t : Tree} {shape : Shape} {b : Built Instance} (hkeys : t.Addressable)
    (h : σ.build t shape = .ok b) : Located b.skipped t :=
  (locatesSkipped hkeys).build h

/-! ## Without the skipped keys -/

/-- Whatever a node is built or read as, without the keys it skips it gives the same value and skips
nothing. -/
structure PrunesSkipped (σ : Schema) (t : Tree) : Prop where
  build : ∀ {shape : Shape} {b : Built Instance}, σ.build t shape = .ok b →
    σ.build (t.without b.skipped) shape = .ok ⟨b.value, []⟩
  parts : ∀ {reader : PartsReader} {b : Built Instance}, ReadsParts σ reader t b →
    ReadsParts σ reader (t.without b.skipped) ⟨b.value, []⟩

theorem readsItems_without {ts : List Tree} {shapes : List Shape} {bs : List (Built Instance)}
    {paths : List KeyPath} (ih : ∀ t ∈ ts, σ.PrunesSkipped t) (h : ReadsItems σ ts shapes bs) :
    ∀ position, (∀ i b, bs[i]? = some b → after (.index (position + i)) paths = b.skipped) →
      ReadsItems σ (Tree.itemsWithout paths position ts) shapes (bs.map fun b => ⟨b.value, []⟩) := by
  induction h with
  | nil => exact fun _ _ => .nil
  | @cons t shape b ts shapes bs hfirst _ ihrest =>
    intro position hafter
    rw [List.forall_mem_cons] at ih
    have hposition := hafter 0 b rfl
    rw [Nat.add_zero] at hposition
    rw [Tree.itemsWithout, hposition]
    refine .cons (ih.1.build hfirst) (ihrest ih.2 _ fun i c hc => ?_)
    rw [Nat.add_right_comm, Nat.add_assoc]
    exact hafter (i + 1) c hc

theorem skippedInItems_eq_nil {bs : List (Built Instance)} (h : ∀ b ∈ bs, b.skipped = []) :
    ∀ position, skippedInItems position bs = [] := by
  induction bs with
  | nil => exact fun _ => rfl
  | cons b bs ih =>
    intro position
    rw [List.forall_mem_cons] at h
    rw [skippedInItems, Built.below, h.1, ih h.2]
    rfl

/-- Paths that begin with other keys do not concern a key. -/
theorem ReadsEntry.after_eq_nil {wants : String → Option (String × Shape)} {e : Tree × Tree}
    {r : EntryReading} {s : String} (h : ReadsEntry σ wants e r) (htext : e.1.isTextKey = true)
    (hs : e.1 ≠ .text s) : after (.key s) r.skipped = [] := by
  refine KeyPath.after_eq_nil fun p hp rest hrest => ?_
  obtain ⟨key, hkey, hpaths⟩ := h.exists_key
  obtain ⟨q, rfl⟩ := hpaths p hp
  refine hs ?_
  rw [Tree.eq_text_of_untagged htext hkey, Step.key.inj (List.cons.inj hrest).1]

theorem after_allSkipped_eq_nil {wants : String → Option (String × Shape)} {es : List (Tree × Tree)}
    {rs : List EntryReading} {s : String} (htexts : ∀ e ∈ es, e.1.isTextKey = true)
    (hs : ∀ e ∈ es, e.1 ≠ .text s) (h : ReadsEntries σ wants es rs) :
    after (.key s) (EntryReading.allSkipped rs) = [] := by
  induction h with
  | nil => rfl
  | cons he _ ih =>
    rw [List.forall_mem_cons] at htexts hs
    rw [EntryReading.allSkipped_cons, after_append, he.after_eq_nil htexts.1 hs.1, ih htexts.2 hs.2,
      List.nil_append]

/-- Of all that entries skip, what an entry skips is what begins with its key. -/
theorem after_allSkipped {wants : String → Option (String × Shape)} {es : List (Tree × Tree)}
    {rs : List EntryReading} (htexts : ∀ e ∈ es, e.1.isTextKey = true) (hnodup : (es.map (·.1)).Nodup)
    (h : ReadsEntries σ wants es rs) {e : Tree × Tree} {r : EntryReading} (hmem : (e, r) ∈ es.zip rs)
    {s : String} (hs : e.1 = .text s) :
    after (.key s) (EntryReading.allSkipped rs) = after (.key s) r.skipped := by
  induction h with
  | nil => exact absurd hmem List.not_mem_nil
  | @cons f r' es rs hf hrs ih =>
    rw [List.map_cons, List.nodup_cons] at hnodup
    rw [List.forall_mem_cons] at htexts
    rw [EntryReading.allSkipped_cons, after_append]
    rcases List.mem_cons.1 hmem with heq | hmem
    · obtain ⟨rfl, rfl⟩ := Prod.mk.inj heq
      have hrest : ∀ g ∈ es, g.1 ≠ .text s := fun g hg hgs =>
        hnodup.1 (List.mem_map.2 ⟨g, hg, hgs.trans hs.symm⟩)
      rw [after_allSkipped_eq_nil htexts.2 hrest hrs, List.append_nil]
    · have hfirst : f.1 ≠ .text s := fun hfs =>
        hnodup.1 (List.mem_map.2 ⟨e, (List.of_mem_zip hmem).1, hs.trans hfs.symm⟩)
      rw [hf.after_eq_nil htexts.1 hfirst, ih htexts.2 hnodup.2 hmem, List.nil_append]

theorem not_leadsTo_nil {t : Tree} : ¬ LeadsTo [] t := by
  induction t using Tree.induct with
  | tagged tag content ih =>
    intro h
    cases h with
    | through _ hcontent => exact ih hcontent
  | _ => exact fun h => by cases h

/-- The wanted entries stay, less what their values skip; the unwanted ones are left out. -/
theorem readsEntries_without {wants : String → Option (String × Shape)} {es : List (Tree × Tree)}
    {rs : List EntryReading} {paths : List KeyPath} (htexts : ∀ e ∈ es, e.1.isTextKey = true)
    (hlocated : ∀ e ∈ es, σ.LocatesSkipped e.2) (ih : ∀ e ∈ es, σ.PrunesSkipped e.2)
    (hafter : ∀ e r, (e, r) ∈ es.zip rs → ∀ s, e.1 = .text s →
      after (.key s) paths = after (.key s) r.skipped)
    (h : ReadsEntries σ wants es rs) :
    ReadsEntries σ wants (Tree.entriesWithout paths es)
      ((EntryReading.allGiven rs).map fun g => ⟨some g, []⟩) := by
  induction h with
  | nil => exact .nil
  | @cons e r es rs he _ ihrest =>
    rw [List.forall_mem_cons] at htexts hlocated ih
    have hrest := ihrest htexts.2 hlocated.2 ih.2 fun f r' hf => hafter f r' (List.mem_cons_of_mem _ hf)
    have hfirst := hafter e r List.mem_cons_self
    cases he with
    | @wanted k v key _ _ b hkey hwants hbuild =>
      obtain rfl := Tree.eq_text_of_untagged htexts.1 hkey
      have hbelow : after (.key key) paths = b.skipped := (hfirst key rfl).trans after_map_cons
      have hnil : [] ∉ b.skipped := fun hmem =>
        not_leadsTo_nil ((hlocated.1.build hbuild).leads [] hmem)
      rw [Tree.entriesWithout, hbelow, if_neg hnil, EntryReading.allGiven_cons_some, List.map_cons]
      exact .cons (.wanted rfl hwants (ih.1.build hbuild)) hrest
    | @unwanted k v key hkey hwants =>
      obtain rfl := Tree.eq_text_of_untagged htexts.1 hkey
      have hbelow : after (.key key) paths = [[]] :=
        (hfirst key rfl).trans (@after_map_cons _ [[]])
      rw [Tree.entriesWithout, hbelow, if_pos List.mem_cons_self, EntryReading.allGiven_cons_none]
      exact hrest

theorem allGiven_map_some (given : List (String × Instance)) :
    EntryReading.allGiven (given.map fun g => ⟨some g, []⟩) = given := by
  rw [EntryReading.allGiven, List.filterMap_map]
  exact List.filterMap_some

theorem allSkipped_map_some (given : List (String × Instance)) :
    EntryReading.allSkipped (given.map fun g => ⟨some g, []⟩) = [] := by
  rw [EntryReading.allSkipped, List.flatMap_eq_nil_iff]
  intro r hr
  obtain ⟨g, -, rfl⟩ := List.mem_map.1 hr
  rfl

theorem prunesSkipped_list {ts : List Tree} (ih : ∀ t ∈ ts, σ.PrunesSkipped t) :
    σ.PrunesSkipped (.list ts) := by
  have hparts {reader : PartsReader} {b : Built Instance} (h : ReadsParts σ reader (.list ts) b) :
      ReadsParts σ reader ((Tree.list ts).without b.skipped) ⟨b.value, []⟩ := by
    cases h with
    | @items _ shapes bs finish hbs =>
      have hclean := readsItems_without ih hbs 0 fun i b hb => after_skippedInItems hb
      have hvalues : (bs.map fun b => (⟨b.value, []⟩ : Built Instance)).map (·.value) = bs.map (·.value) := by
        rw [List.map_map]
        rfl
      have hskipped : skippedInItems 0 (bs.map fun b => (⟨b.value, []⟩ : Built Instance)) = [] :=
        skippedInItems_eq_nil (by simp) 0
      have hread := ReadsParts.items finish hclean
      rw [hvalues, hskipped] at hread
      exact hread
  refine ⟨fun h => ?_, hparts⟩
  obtain ⟨reader, htakes, h⟩ := build_list_eq_ok_iff.1 h
  exact build_list_eq_ok_iff.2 ⟨reader, htakes, hparts h⟩

theorem prunesSkipped_map {es : List (Tree × Tree)} (hplain : (Tree.map es).Plain)
    (ih : ∀ e ∈ es, σ.PrunesSkipped e.2) : σ.PrunesSkipped (.map es) := by
  obtain ⟨htexts, hnodup, hvalues⟩ := Tree.plain_map.1 hplain
  have hparts {reader : PartsReader} {b : Built Instance} (h : ReadsParts σ reader (.map es) b) :
      ReadsParts σ reader ((Tree.map es).without b.skipped) ⟨b.value, []⟩ := by
    cases h with
    | @entries _ reader rs x hrs hfinish =>
      have hclean := readsEntries_without htexts (fun e he => locatesSkipped (hvalues e he).addressable) ih
        (fun e r hmem s hs => after_allSkipped htexts hnodup hrs hmem hs) hrs
      -- the reader sees the wanted entries as before, and only these are left
      rw [← allGiven_map_some (EntryReading.allGiven rs)] at hfinish
      have hread := ReadsParts.entries hclean hfinish
      rw [allSkipped_map_some] at hread
      exact hread
  refine ⟨fun h => ?_, hparts⟩
  obtain ⟨reader, htakes, h⟩ := build_map_eq_ok_iff.1 h
  exact build_map_eq_ok_iff.2 ⟨reader, htakes, hparts h⟩

theorem prunesSkipped_tagged {tag : String} {content : Tree} (ih : σ.PrunesSkipped content) :
    σ.PrunesSkipped (.tagged tag content) := by
  refine ⟨fun {shape _} h => ?_, fun h => by cases h⟩
  cases build_tagged_eq_ok_iff.1 h with
  | scalar hscalar => cases hscalar
  | parts _ hparts => cases hparts
  | bare => rwa [Tree.without_nil]
  | one hshape hvariant hbuild =>
    -- the paths step through the tag, and the content gets them without that step
    rw [Tree.without, map_belowTag_variant]
    exact build_tagged_eq_ok_iff.2 (.one hshape hvariant (ih.build hbuild))
  | payload hshape hvariant htakes hparts =>
    rw [Tree.without, map_belowTag_of_ne hparts.ne_variant]
    exact build_tagged_eq_ok_iff.2 (.payload hshape hvariant htakes (ih.parts hparts))
  | through hshape hbuild =>
    have hbase : ∀ name, shape.base.base ≠ .choice name := by rwa [Shape.base_base]
    have hskipped := ne_variant_of_build hbase hbuild
    rw [Tree.without, map_belowTag_of_ne hskipped]
    exact build_tagged_eq_ok_iff.2 (.through hshape (ih.build hbuild))

theorem prunesSkipped {t : Tree} (hplain : t.Plain) : σ.PrunesSkipped t := by
  induction t using Tree.induct with
  | null | flag | number | text =>
    refine ⟨fun {shape b} h => ?_, fun h => ?_⟩
    · obtain ⟨x, skipped⟩ := b
      obtain rfl : skipped = [] := skipped_of_isScalar rfl h
      exact h
    · cases h
  | list ts ih => exact prunesSkipped_list fun t ht => ih t ht (Tree.plain_list.1 hplain t ht)
  | map es ih =>
    obtain ⟨-, -, hvalues⟩ := Tree.plain_map.1 hplain
    exact prunesSkipped_map hplain fun e he => (ih e he).2 (hvalues e he)
  | tagged tag content ih => exact prunesSkipped_tagged (ih (Tree.plain_tagged.1 hplain).2)

/-- **Without its skipped keys a document gives the same.** -/
theorem build_without_skipped {t : Tree} {shape : Shape} {b : Built Instance} (hplain : t.Plain)
    (h : σ.build t shape = .ok b) : σ.build (t.without b.skipped) shape = .ok ⟨b.value, []⟩ :=
  (prunesSkipped hplain).build h

end Schema

end Provisioning
