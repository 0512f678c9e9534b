import Provisioning.Proofs.Schema.ReadsLike
import Provisioning.Proofs.Schema.Skipped
import Provisioning.Proofs.Tree.Dropping

/-!
# Flat records

A record is flat if no field of it holds a record or a choice. The values of its fields then take all that is below
them, so what a build skips are keys of the record itself that give no field (`key_of_mem_skipped`). Without such a
key any node at all, whatever its other keys are, is built into the same record (`build_remove`).

For other records this holds of plain documents only (`build_without_skipped`). A flat one does not ask where a path
below a key leads.
-/

namespace Provisioning

namespace Shape

/-- Whether a shape takes all that is below a node, because there is neither a record nor a choice in it. -/
def takesAll : Shape → Bool
  | .text | .flag | .unsigned _ => true
  | .list s | .distinct s | .dictionary s | .optional s => s.takesAll
  | .record _ | .choice _ => false

theorem takesAll_base (shape : Shape) : shape.base.takesAll = shape.takesAll := by
  induction shape with
  | optional of ih => exact ih
  | _ => rfl

theorem base_ne_choice_of_takesAll {shape : Shape} (h : shape.takesAll = true) (name : String) :
    shape.base ≠ .choice name := by
  intro hbase
  rw [← takesAll_base, hbase] at h
  cases h

end Shape

namespace Schema

variable {σ : Schema} {shape : Shape} {t : Tree} {b : Built Instance} {name : String}

/-! ## Shapes that take all -/

theorem skipped_of_readsItems {ts : List Tree} {shapes : List Shape} {bs : List (Built Instance)}
    (ih : ∀ t ∈ ts, ∀ {shape : Shape} {b : Built Instance}, shape.takesAll = true → σ.build t shape = .ok b →
      b.skipped = [])
    (hshapes : ∀ shape ∈ shapes, shape.takesAll = true) (h : ReadsItems σ ts shapes bs) :
    ∀ b ∈ bs, b.skipped = [] := by
  induction h with
  | nil => exact nofun
  | cons hfirst _ ihrest =>
    obtain ⟨iht, ihts⟩ := List.forall_mem_cons.1 ih
    obtain ⟨hshape, hothers⟩ := List.forall_mem_cons.1 hshapes
    exact List.forall_mem_cons.2 ⟨iht hshape hfirst, ihrest ihts hothers⟩

/-- A shape that takes all skips nothing. -/
theorem skipped_of_takesAll (hshape : shape.takesAll = true) (h : σ.build t shape = .ok b) : b.skipped = [] := by
  induction t using Tree.induct generalizing shape b with
  | null | flag | number | text => exact skipped_of_isScalar rfl h
  | list ts ih =>
    obtain ⟨reader, htakes, hparts⟩ := build_list_eq_ok_iff.1 h
    rw [← Shape.takesAll_base] at hshape
    generalize shape.base = base at htakes hshape
    cases htakes with
    | list item n | distinct item n =>
      cases hparts with
      | items finish hbs =>
        have hitem : ∀ shape ∈ List.replicate n item, shape.takesAll = true := fun shape hmem =>
          (List.eq_of_mem_replicate hmem).symm ▸ hshape
        exact skippedInItems_eq_nil (skipped_of_readsItems ih hitem hbs) 0
    | record | dictionary => cases hparts
  | map es ih =>
    obtain ⟨reader, htakes, hparts⟩ := build_map_eq_ok_iff.1 h
    rw [← Shape.takesAll_base] at hshape
    generalize shape.base = base at htakes hshape
    cases htakes with
    | list | distinct => cases hparts
    | record => cases hshape
    | dictionary value =>
      have hvalue : value.takesAll = true := hshape
      cases hparts with
      | entries hrs hfinish =>
        refine List.eq_nil_iff_forall_not_mem.2 fun p hp => ?_
        obtain ⟨e, he, r, hr, hpr⟩ := exists_of_mem_allSkipped hrs hp
        cases hr with
        | unwanted _ hwants => cases hwants
        | wanted _ hwants hbuild =>
          obtain ⟨-, rfl⟩ := Prod.mk.inj (Option.some.inj hwants)
          obtain ⟨q, hq, -⟩ := List.mem_map.1 hpr
          rw [(ih _ he).2 hvalue hbuild] at hq
          exact List.not_mem_nil hq
  | tagged tag content ih =>
    have hchoice := Shape.base_ne_choice_of_takesAll hshape
    exact ih ((Shape.takesAll_base shape).trans hshape) ((build_tagged_of_ne_choice hchoice).1 h)

/-! ## What a flat record skips -/

/-- No field of a record holds a record or a choice. -/
def IsFlat (σ : Schema) (name : String) : Prop := ∀ f ∈ σ.fields name, f.shape.takesAll = true

theorem takesAll_of_wantsField {fields : List Field} (h : ∀ f ∈ fields, f.shape.takesAll = true) {key : String}
    {wanted : String × Shape} (hwants : wantsField fields key = some wanted) : wanted.2.takesAll = true := by
  obtain ⟨f, hf, rfl⟩ := Option.map_eq_some_iff.1 hwants
  exact h f (List.mem_of_find?_eq_some hf)

/-- A record looks through tags. -/
theorem build_tagged_of_record {tag : String} (hshape : shape.base = .record name) :
    σ.build (.tagged tag t) shape = .ok b ↔ σ.build t shape.base = .ok b :=
  build_tagged_of_ne_choice fun _ hother => nomatch hshape.symm.trans hother

/-- A map is read as a record by its fields. -/
theorem build_map_of_record {es : List (Tree × Tree)} (hshape : shape.base = .record name) :
    σ.build (.map es) shape = .ok b ↔ ReadsParts σ (.entries (.fields (σ.fields name))) (.map es) b := by
  rw [build_map_eq_ok_iff, hshape]
  refine ⟨fun h => ?_, fun h => ⟨_, .record name, h⟩⟩
  obtain ⟨reader, htakes, hparts⟩ := h
  cases htakes
  exact hparts

/-- **A flat record skips keys of its own.** None of them gives a field. -/
theorem key_of_mem_skipped (hflat : σ.IsFlat name) (hshape : shape.base = .record name)
    (h : σ.build t shape = .ok b) :
    ∀ p ∈ b.skipped, ∃ key, p = [.key key] ∧ wantsField (σ.fields name) key = none := by
  induction t using Tree.induct generalizing shape with
  | null | flag | number | text =>
    rw [skipped_of_isScalar rfl h]
    exact nofun
  | list ts =>
    obtain ⟨reader, htakes, hparts⟩ := build_list_eq_ok_iff.1 h
    rw [hshape] at htakes
    cases htakes
    cases hparts
  | map es =>
    cases (build_map_of_record hshape).1 h with
    | entries hrs hfinish =>
      intro p hp
      obtain ⟨e, -, r, hr, hpr⟩ := exists_of_mem_allSkipped hrs hp
      cases hr with
      | unwanted _ hwants => exact ⟨_, List.mem_singleton.1 hpr, hwants⟩
      | wanted _ hwants hbuild =>
        obtain ⟨q, hq, -⟩ := List.mem_map.1 hpr
        rw [skipped_of_takesAll (takesAll_of_wantsField hflat hwants) hbuild] at hq
        exact absurd hq List.not_mem_nil
  | tagged tag content ih =>
    exact ih ((Shape.base_base shape).trans hshape) ((build_tagged_of_record hshape).1 h)

/-! ## Without keys that give no field -/

/-- Reading a map as a record, an entry whose key gives no field can be taken out. -/
theorem readsParts_of_perm_cons {declared : List Field} {es fs : List (Tree × Tree)} {k v : Tree} {key : String}
    (hperm : ((k, v) :: fs).Perm es) (hkey : k.untagged = .text key) (hwants : wantsField declared key = none)
    (h : ReadsParts σ (.entries (.fields declared)) (.map es) b) :
    ∃ b', ReadsParts σ (.entries (.fields declared)) (.map fs) b' ∧ b'.value = b.value := by
  cases h with
  | @entries _ _ rs x hrs hfinish =>
    obtain ⟨rs', hrs', hsame⟩ := List.perm_comp_forall₂ hperm hrs
    cases hrs' with
    | @cons _ r _ others hfirst hothers =>
      have hskip : r.given = none := by
        cases hfirst with
        | unwanted => rfl
        | wanted hkey' hwants' =>
          obtain rfl := Tree.text.inj (hkey.symm.trans hkey')
          exact nomatch hwants.symm.trans hwants'
      -- what the other entries give is what all of them gave, in another order
      have hgiven : (EntryReading.allGiven others).Perm (EntryReading.allGiven rs) := by
        have hall := hsame.filterMap EntryReading.given
        rw [List.filterMap_cons_none hskip] at hall
        exact hall
      have hnodup := (hgiven.map (·.1)).nodup_iff.2 (MapReader.nodup_of_finish_fields hfinish)
      rw [← MapReader.finish_perm _ hgiven hnodup] at hfinish
      exact ⟨_, .entries hothers hfinish, rfl⟩

/-- **Without a key that gives no field a node is built into the same record.** -/
theorem build_remove (hshape : shape.base = .record name) {key : String}
    (hwants : wantsField (σ.fields name) key = none) (h : σ.build t shape = .ok b) :
    ∃ b', σ.build (t.remove [.key key]) shape = .ok b' ∧ b'.value = b.value := by
  induction t using Tree.induct generalizing shape with
  | null | flag | number | text | list => exact ⟨b, h, rfl⟩
  | map es =>
    rw [Tree.remove_key_map]
    rcases Tree.erase_cases key es with hsame | ⟨v, hperm⟩
    · rw [hsame]
      exact ⟨b, h, rfl⟩
    · obtain ⟨b', hparts', hvalue⟩ :=
        readsParts_of_perm_cons hperm.symm rfl hwants ((build_map_of_record hshape).1 h)
      exact ⟨b', (build_map_of_record hshape).2 hparts', hvalue⟩
  | tagged tag content ih =>
    obtain ⟨b', hb', hvalue⟩ := ih ((Shape.base_base shape).trans hshape) ((build_tagged_of_record hshape).1 h)
    exact ⟨b', (build_tagged_of_record hshape).2 hb', hvalue⟩

/-- Nor does it matter how many such keys are taken out. -/
theorem build_foldl_remove (hshape : shape.base = .record name) (paths : List KeyPath) :
    (∀ p ∈ paths, ∃ key, p = [.key key] ∧ wantsField (σ.fields name) key = none) →
    ∀ {t : Tree} {b : Built Instance}, σ.build t shape = .ok b →
      ∃ b', σ.build (paths.foldl (fun t path => t.remove path) t) shape = .ok b' ∧ b'.value = b.value := by
  induction paths with
  | nil => exact fun _ t b h => ⟨b, h, rfl⟩
  | cons path paths ih =>
    intro hpaths t b h
    obtain ⟨⟨key, rfl, hwants⟩, hrest⟩ := List.forall_mem_cons.1 hpaths
    obtain ⟨b', hb', hvalue⟩ := build_remove hshape hwants h
    obtain ⟨b'', hb'', hvalue'⟩ := ih hrest hb'
    exact ⟨b'', hb'', hvalue'.trans hvalue⟩

/-- **What a flat record leaves of a node is built into the same record.** -/
theorem build_without_own_keys (hflat : σ.IsFlat name) (hshape : shape.base = .record name)
    (h : σ.build t shape = .ok b) :
    ∃ b', σ.build (b.skipped.foldl (fun t path => t.remove path) t) shape = .ok b' ∧ b'.value = b.value :=
  build_foldl_remove hshape b.skipped (key_of_mem_skipped hflat hshape h) h

end Schema

end Provisioning
