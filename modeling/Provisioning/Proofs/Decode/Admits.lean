import Mathlib.Data.List.ReduceOption
import Provisioning.Proofs.Decode.Results
import Provisioning.Proofs.Decode.Tolerance

/-!
# What a setting admits

Strict and tolerant decoding build alike, and differ in what they make of the keys that a build skips. `Schema.Admits`
puts the two together: a node is built as a shape, and what is skipped may be. A list is admitted item by item and a map
entry by entry (`admits_map_iff`), so items and entries can be exchanged for others that are admitted alike, and entries
left out where nothing takes them.

Where nothing is to be resolved, a decode admits the document, at the first attempt if there is no other one
(`decode_eq_ok_iff_admits`).
-/

namespace Provisioning

namespace Schema

variable {σ : Schema} {strict : Bool} {shape : Shape} {t : Tree} {x y : Instance}
  {wants : String → Option (String × Shape)} {es : List (Tree × Tree)}

/-- A node is built as a shape into an instance, and no key is skipped unless that is tolerated. -/
def Admits (σ : Schema) (strict : Bool) (shape : Shape) (t : Tree) (x : Instance) : Prop :=
  ∃ b, σ.build t shape = .ok b ∧ b.value = x ∧ (b.skipped = [] ∨ strict = false)

theorem Admits.unique (h : σ.Admits strict shape t x) (h' : σ.Admits strict shape t y) : x = y := by
  obtain ⟨b, hb, rfl, -⟩ := h
  obtain ⟨b', hb', rfl, -⟩ := h'
  rw [Except.ok.inj (hb.symm.trans hb')]

/-- A build that skips nothing is all there is to say about a node. -/
theorem admits_of_build (h : σ.build t shape = .ok ⟨y, []⟩) : σ.Admits strict shape t x ↔ x = y := by
  refine ⟨fun hx => hx.unique ⟨_, h, rfl, .inl rfl⟩, fun hx => ?_⟩
  exact hx ▸ ⟨_, h, rfl, .inl rfl⟩

/-- What is admitted strictly is admitted tolerantly. -/
theorem Admits.relax (h : σ.Admits true shape t x) : σ.Admits strict shape t x := by
  obtain ⟨b, hb, hx, hskipped⟩ := h
  exact ⟨b, hb, hx, .inl (hskipped.resolve_right nofun)⟩

theorem not_admits_of_build {reason : Mismatch} (h : σ.build t shape = .error reason) :
    ¬ σ.Admits strict shape t x :=
  fun ⟨_, hb, _⟩ => nomatch h.symm.trans hb

/-! ## Through tags -/

/-- Below a tag there is no absent value any more. -/
theorem admits_tagged {tag : String} {inner : Shape} (hbase : shape.base = inner)
    (hinner : ∀ name, inner ≠ .choice name) :
    σ.Admits strict shape (.tagged tag t) x ↔ σ.Admits strict inner t x := by
  subst hbase
  exact exists_congr fun _ => and_congr_left fun _ => build_tagged_of_ne_choice hinner

/-! ## Lists -/

/-- Items are read with only such keys skipped as may be exactly if each of them is admitted. -/
theorem admitsItems_iff {ts : List Tree} {xs : List Instance} (position : Nat) :
    List.Forall₂ (σ.Admits strict shape) ts xs ↔
      ∃ bs, ReadsItems σ ts (List.replicate ts.length shape) bs ∧ bs.map (·.value) = xs ∧
        (skippedInItems position bs = [] ∨ strict = false) := by
  refine ⟨fun h => ?_, fun h => ?_⟩
  · induction h generalizing position with
    | nil => exact ⟨[], .nil, rfl, .inl rfl⟩
    | cons hx _ ih =>
      obtain ⟨b, hb, rfl, hfirst⟩ := hx
      obtain ⟨bs, hbs, rfl, hrest⟩ := ih (position + 1)
      refine ⟨b :: bs, .cons hb hbs, rfl, ?_⟩
      rcases hfirst with hfirst | htolerant
      · rw [skippedInItems, Built.below, hfirst]
        exact hrest
      · exact .inr htolerant
  · obtain ⟨bs, hbs, rfl, hskipped⟩ := h
    induction ts generalizing bs position with
    | nil =>
      cases hbs
      exact .nil
    | cons t ts ih =>
      cases hbs with
      | cons hb hbs =>
        rw [skippedInItems, List.append_eq_nil_iff] at hskipped
        exact .cons ⟨_, hb, rfl, hskipped.imp_left fun hnil => List.map_eq_nil_iff.1 hnil.1⟩
          (ih _ _ hbs (hskipped.imp_left And.right))

/-- **A list of which repeated items count once is admitted item by item.** -/
theorem admits_distinct_iff {ts : List Tree} :
    σ.Admits strict (.distinct shape) (.list ts) x ↔
      ∃ xs, List.Forall₂ (σ.Admits strict shape) ts xs ∧ x = .list (firstOccurrences xs) := by
  refine ⟨fun h => ?_, fun h => ?_⟩
  · obtain ⟨b, hb, rfl, hskipped⟩ := h
    obtain ⟨_, htakes, hparts⟩ := build_list_eq_ok_iff.1 hb
    cases htakes with
    | distinct _ n =>
      cases hparts with
      | items _ hbs =>
        obtain rfl : n = ts.length := by simpa using (readsItems_length hbs).symm
        exact ⟨_, (admitsItems_iff 0).2 ⟨_, hbs, rfl, hskipped⟩, rfl⟩
  · obtain ⟨xs, hxs, rfl⟩ := h
    obtain ⟨bs, hbs, rfl, hskipped⟩ := (admitsItems_iff 0).1 hxs
    exact ⟨_, build_list_eq_ok_iff.2 ⟨_, .distinct shape ts.length, .items _ hbs⟩, rfl, hskipped⟩

/-! ## Maps -/

/-- A map entry gives a wanted key what its value is admitted as, or nothing if its key is not wanted and that is
tolerated. -/
inductive AdmitsEntry (σ : Schema) (strict : Bool) (wants : String → Option (String × Shape)) :
    Tree × Tree → Option (String × Instance) → Prop
  | wanted {k v : Tree} {key name : String} {shape : Shape} {x : Instance} :
      k.untagged = .text key → wants key = some (name, shape) → σ.Admits strict shape v x →
      AdmitsEntry σ strict wants (k, v) (some (name, x))
  | unwanted {k v : Tree} {key : String} :
      strict = false → k.untagged = .text key → wants key = none → AdmitsEntry σ strict wants (k, v) none

theorem admitsEntry_of_reads {e : Tree × Tree} {r : EntryReading} (h : ReadsEntry σ wants e r)
    (hskipped : r.skipped = [] ∨ strict = false) : σ.AdmitsEntry strict wants e r.given := by
  cases h with
  | wanted hkey hwants hb => exact .wanted hkey hwants ⟨_, hb, rfl, hskipped.imp_left List.map_eq_nil_iff.1⟩
  | unwanted hkey hwants =>
    rcases hskipped with hnil | htolerant
    · cases hnil
    · exact .unwanted htolerant hkey hwants

theorem AdmitsEntry.exists_reads {e : Tree × Tree} {g : Option (String × Instance)}
    (h : σ.AdmitsEntry strict wants e g) :
    ∃ r, ReadsEntry σ wants e r ∧ r.given = g ∧ (r.skipped = [] ∨ strict = false) := by
  cases h with
  | wanted hkey hwants hx =>
    obtain ⟨b, hb, rfl, hskipped⟩ := hx
    exact ⟨_, .wanted hkey hwants hb, rfl, hskipped.imp_left List.map_eq_nil_iff.2⟩
  | unwanted htolerant hkey hwants => exact ⟨_, .unwanted hkey hwants, rfl, .inr htolerant⟩

/-- Entries are read with only such keys skipped as may be exactly if each of them is admitted. -/
theorem admitsEntries_iff {gs : List (Option (String × Instance))} :
    List.Forall₂ (σ.AdmitsEntry strict wants) es gs ↔
      ∃ rs, ReadsEntries σ wants es rs ∧ rs.map (·.given) = gs ∧
        (EntryReading.allSkipped rs = [] ∨ strict = false) := by
  refine ⟨fun h => ?_, fun h => ?_⟩
  · induction h with
    | nil => exact ⟨[], .nil, rfl, .inl rfl⟩
    | cons hentry _ ih =>
      obtain ⟨r, hr, hg, hfirst⟩ := hentry.exists_reads
      obtain ⟨rs, hrs, hgs, hrest⟩ := ih
      refine ⟨r :: rs, .cons hr hrs, congrArg₂ _ hg hgs, ?_⟩
      rcases hfirst with hfirst | htolerant
      · rw [EntryReading.allSkipped_cons, hfirst]
        exact hrest
      · exact .inr htolerant
  · obtain ⟨rs, hrs, rfl, hskipped⟩ := h
    induction hrs with
    | nil => exact .nil
    | cons hr _ ih =>
      rw [EntryReading.allSkipped_cons, List.append_eq_nil_iff] at hskipped
      exact .cons (admitsEntry_of_reads hr (hskipped.imp_left And.left)) (ih (hskipped.imp_left And.right))

theorem Takes.eq_of_entries {reader reader' : MapReader} (h : σ.Takes shape (.entries reader))
    (h' : σ.Takes shape (.entries reader')) : reader' = reader := by
  cases h <;> cases h' <;> rfl

/-- **A map is admitted entry by entry.** -/
theorem admits_map_iff {reader : MapReader} (htakes : σ.Takes shape.base (.entries reader)) :
    σ.Admits strict shape (.map es) x ↔
      ∃ gs, List.Forall₂ (σ.AdmitsEntry strict reader.wants) es gs ∧ reader.finish gs.reduceOption = some x := by
  have hgiven (rs : List EntryReading) : (rs.map (·.given)).reduceOption = EntryReading.allGiven rs :=
    List.filterMap_map
  refine ⟨fun h => ?_, fun h => ?_⟩
  · obtain ⟨b, hb, rfl, hskipped⟩ := h
    obtain ⟨_, htakes', hparts⟩ := build_map_eq_ok_iff.1 hb
    cases hparts with
    | entries hrs hfinish =>
      obtain rfl := htakes.eq_of_entries htakes'
      refine ⟨_, admitsEntries_iff.2 ⟨_, hrs, rfl, hskipped⟩, ?_⟩
      rw [hgiven]
      exact hfinish
  · obtain ⟨gs, hgs, hfinish⟩ := h
    obtain ⟨rs, hrs, rfl, hskipped⟩ := admitsEntries_iff.1 hgs
    rw [hgiven] at hfinish
    exact ⟨_, build_map_eq_ok_iff.2 ⟨_, htakes, .entries hrs hfinish⟩, rfl, hskipped⟩

/-- Where skipping is tolerated, entries that are not wanted can be put back between the others. They give nothing. -/
theorem admitsEntries_of_filter {keep : Tree × Tree → Bool} (htolerant : strict = false)
    (hkeep : ∀ e ∈ es, keep e = false → ∃ key, e.1.untagged = .text key ∧ wants key = none) :
    ∀ {gs : List (Option (String × Instance))}, List.Forall₂ (σ.AdmitsEntry strict wants) (es.filter keep) gs →
      ∃ gs', List.Forall₂ (σ.AdmitsEntry strict wants) es gs' ∧ gs'.reduceOption = gs.reduceOption := by
  induction es with
  | nil => exact fun {gs} hgs => ⟨gs, hgs, rfl⟩
  | cons e es ih =>
    intro gs hgs
    obtain ⟨hfirst, hrest⟩ := List.forall_mem_cons.1 hkeep
    cases hkept : keep e with
    | true =>
      rw [List.filter_cons_of_pos hkept] at hgs
      cases hgs with
      | @cons _ g _ gs hg hgs =>
        obtain ⟨gs', hgs', hsame⟩ := ih hrest hgs
        refine ⟨g :: gs', .cons hg hgs', ?_⟩
        cases g with
        | none => exact hsame
        | some g => rw [List.reduceOption_cons_of_some, List.reduceOption_cons_of_some, hsame]
    | false =>
      rw [List.filter_cons_of_neg (by simp [hkept])] at hgs
      obtain ⟨key, hkey, hwants⟩ := hfirst hkept
      obtain ⟨gs', hgs', hsame⟩ := ih hrest hgs
      exact ⟨none :: gs', .cons (.unwanted htolerant hkey hwants) hgs', hsame⟩

/-- **A map is admitted tolerantly if it is without entries that are not wanted.** -/
theorem admits_of_filter {reader : MapReader} {keep : Tree × Tree → Bool}
    (htakes : σ.Takes shape.base (.entries reader)) (htolerant : strict = false)
    (hkeep : ∀ e ∈ es, keep e = false → ∃ key, e.1.untagged = .text key ∧ reader.wants key = none)
    (h : σ.Admits strict shape (.map (es.filter keep)) x) : σ.Admits strict shape (.map es) x := by
  obtain ⟨gs, hgs, hfinish⟩ := (admits_map_iff htakes).1 h
  obtain ⟨gs', hgs', hsame⟩ := admitsEntries_of_filter htolerant hkeep hgs
  exact (admits_map_iff htakes).2 ⟨gs', hgs', hsame.symm ▸ hfinish⟩

end Schema

/-! ## Decodes -/

namespace Surroundings

variable {s : Surroundings} {shape : Shape} {node : Tree} {x : Instance}

/-- What is admitted passes at the first attempt. -/
theorem passes_of_admits (h : s.schema.Admits s.settings.strict shape node x) : ∃ rest, s.Passes shape node x rest := by
  obtain ⟨b, hb, rfl, hskipped⟩ := h
  exact ⟨_, .first hb ⟨hskipped, rfl⟩⟩

/-- Where there is no second attempt, nothing else passes. -/
theorem passes_iff_admits (h : s.settings.strict = true ∨ node.hasOtherKeys = false) :
    (∃ rest, s.Passes shape node x rest) ↔ s.schema.Admits s.settings.strict shape node x := by
  refine ⟨fun ⟨rest, hpasses⟩ => ?_, passes_of_admits⟩
  cases hpasses with
  | first hb haccepts => exact ⟨_, hb, rfl, haccepts.1⟩
  | second _ htolerant hother =>
    rcases h with hstrict | hnone
    · exact Bool.noConfusion (htolerant.symm.trans hstrict)
    · exact Bool.noConfusion (hnone.symm.trans hother)

end Surroundings

namespace Decoder

variable {σ : Schema} {decl : TypeDecl} {context : Context} {settings : Settings} {document : Tree}

/-- Where nothing is to be resolved, a decode results in what passes. -/
theorem decode_eq_ok_iff_passes (htags : document.OnlyVariantTags) (hkeys : document.DistinctKeys)
    (hdepth : document.depth ≤ settings.maxDepth) {r : Decoded} :
    (decode ⟨.type decl, context, settings⟩ σ document).outcome = .ok r ↔
      ∃ x, (∃ rest, Surroundings.Passes ⟨σ, context, settings⟩ decl.shape document x rest) ∧ r = .built x := by
  rw [(decode_eq_buildChecked htags hkeys hdepth).1]
  refine ⟨fun ⟨b, hb, hr⟩ => ?_, fun ⟨x, ⟨rest, hpasses⟩, hr⟩ => ?_⟩
  · exact ⟨b.1, ⟨b.2, Surroundings.buildChecked_build_eq_ok.1 hb⟩, hr⟩
  · exact ⟨(x, rest), Surroundings.buildChecked_build_eq_ok.2 hpasses, hr⟩

/-- Then what is admitted is the result. -/
theorem decode_of_admits (htags : document.OnlyVariantTags) (hkeys : document.DistinctKeys)
    (hdepth : document.depth ≤ settings.maxDepth) {x : Instance} (h : σ.Admits settings.strict decl.shape document x) :
    (decode ⟨.type decl, context, settings⟩ σ document).outcome = .ok (.built x) :=
  (decode_eq_ok_iff_passes htags hkeys hdepth).2
    ⟨x, Surroundings.passes_of_admits (s := ⟨σ, context, settings⟩) h, rfl⟩

/-- **What a decode without a second attempt results in.** -/
theorem decode_eq_ok_iff_admits (htags : document.OnlyVariantTags) (hkeys : document.DistinctKeys)
    (hdepth : document.depth ≤ settings.maxDepth) (h : settings.strict = true ∨ document.hasOtherKeys = false)
    {r : Decoded} :
    (decode ⟨.type decl, context, settings⟩ σ document).outcome = .ok r ↔
      ∃ x, σ.Admits settings.strict decl.shape document x ∧ r = .built x := by
  rw [decode_eq_ok_iff_passes htags hkeys hdepth]
  exact exists_congr fun x => and_congr_left fun _ => Surroundings.passes_iff_admits (s := ⟨σ, context, settings⟩) h

end Decoder

end Provisioning
