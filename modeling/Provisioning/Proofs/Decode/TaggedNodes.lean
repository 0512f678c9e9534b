import Provisioning.Proofs.Decode.Admits
import Provisioning.Proofs.Decode.EntryOrder

/-!
# Nodes that name their type

A node below the root that names its type is built on its own, before what it is part of is built of what that has left
of it. If it is part of something that wants it as the same shape, it is built twice; without the tag it would be built
once.

What the first build leaves of a plain node is admitted just as the node is (`Passes.admits_rest`). So the node comes to
the same with the tag as without it (`admitsLike_tagged`), and what holds of the entries of a map in this respect holds
of the map (`admitsLike_map`).
-/

namespace Provisioning

/-- If each of the items in between is related to what one partner is, so is the list of them. -/
theorem forall₂_comp_iff {α β γ δ : Type} {r : α → β → Prop} {p : β → γ → Prop} {q : δ → γ → Prop}
    {as : List α} {ds : List δ}
    (h : List.Forall₂ (fun a d => ∀ c, (∃ b, r a b ∧ p b c) ↔ q d c) as ds) :
    ∀ cs, (∃ bs, List.Forall₂ r as bs ∧ List.Forall₂ p bs cs) ↔ List.Forall₂ q ds cs := by
  induction h with
  | nil =>
    intro cs
    refine ⟨fun ⟨bs, hbs, hcs⟩ => ?_, fun hcs => ⟨[], .nil, ?_⟩⟩
    · cases hbs
      cases hcs
      exact .nil
    · cases hcs
      exact .nil
  | cons hfirst _ ih =>
    intro cs
    refine ⟨fun ⟨bs, hbs, hcs⟩ => ?_, fun hcs => ?_⟩
    · cases hbs with
      | cons hb hbs =>
        cases hcs with
        | cons hc hcs => exact .cons ((hfirst _).1 ⟨_, hb, hc⟩) ((ih _).1 ⟨_, hbs, hcs⟩)
    · cases hcs with
      | cons hc hcs =>
        obtain ⟨b, hb, hbc⟩ := (hfirst _).2 hc
        obtain ⟨bs, hbs, hbcs⟩ := (ih _).2 hcs
        exact ⟨b :: bs, .cons hb hbs, .cons hbc hbcs⟩

namespace Surroundings

variable {s : Surroundings} {depth : Nat} {shape : Shape} {v w : Tree} {x : Instance}

/-! ## What a build leaves -/

/-- **What is left of a plain node that passes is plain, and admitted as the same instance.** -/
theorem Passes.admits_rest {node rest : Tree} (h : s.Passes shape node x rest) (hplain : node.Plain) :
    rest.Plain ∧ s.schema.Admits s.settings.strict shape rest x := by
  obtain ⟨b, hb, rfl, rfl⟩ : ∃ b, s.schema.build node shape = .ok b ∧ b.value = x ∧
      rest = b.skipped.foldl (fun t path => t.remove path) node := by
    cases h with
    | first hb haccepts => exact ⟨_, hb, rfl, haccepts.2⟩
    | second _ _ hother => exact nomatch hplain.hasOtherKeys_eq_false.symm.trans hother
  -- the removals come to the node without the keys that were skipped, in some order
  have hleft := (Tree.foldl_remove_reordered b.skipped hplain.distinctKeys).symm
  have hpruned := hplain.without b.skipped
  obtain ⟨b', hb', hkeeps⟩ := (Schema.ReadsLike.of_reordered hleft hpruned.orderly).build
    (Schema.build_without_skipped hplain hb)
  exact ⟨hleft.plain hpruned, b', hb', hkeeps.value, .inl (hkeeps.quiet rfl)⟩

/-! ## Nodes that come to the same -/

/-- What resolving the first node leaves is admitted as a shape just as the second node is, and has no keys that are not
text. -/
structure AdmitsLike (s : Surroundings) (depth : Nat) (shape : Shape) (w v : Tree) : Prop where
  admits : ∀ x, (∃ u, s.Resolves depth w u ∧ s.schema.Admits s.settings.strict shape u x) ↔
    s.schema.Admits s.settings.strict shape v x
  textKeys : ∀ u, s.Resolves depth w u → u.hasOtherKeys = false

/-- The same, for an entry. -/
structure EntryAdmitsLike (s : Surroundings) (depth : Nat) (wants : String → Option (String × Shape))
    (f e : Tree × Tree) : Prop where
  admits : ∀ g, (∃ u, s.ResolvesEntry depth f u ∧ s.schema.AdmitsEntry s.settings.strict wants u g) ↔
    s.schema.AdmitsEntry s.settings.strict wants e g
  textKeys : ∀ u, s.ResolvesEntry depth f u → u.1.isTextKey = true ∧ u.2.hasOtherKeys = false

/-- A node without tags is left as it is. -/
theorem admitsLike_self (hfree : v.TagFree) (hplain : v.Plain) (hdepth : depth + v.depth ≤ s.settings.maxDepth) :
    s.AdmitsLike depth shape v v := by
  have hself : ∀ u, s.Resolves depth v u ↔ u = v := fun u =>
    (resolves_key hfree hplain.distinctKeys).trans (and_iff_right hdepth)
  refine ⟨fun x => ⟨fun ⟨u, hu, hx⟩ => ?_, fun hx => ⟨v, (hself v).2 rfl, hx⟩⟩, fun u hu => ?_⟩
  · exact (hself u).1 hu ▸ hx
  · exact (hself u).1 hu ▸ hplain.hasOtherKeys_eq_false

/-- **A node below the tag of its type comes to the same as without it.** It passes the build that the tag asks for
exactly if it is admitted. -/
theorem admitsLike_tagged {tag name : String} {d : Descriptor} (hrole : TagRole.ofTag tag = .type name)
    (hd : s.context.resolve name = some d) (hfree : v.TagFree) (hplain : v.Plain)
    (hdepth : depth + 1 + v.depth ≤ s.settings.maxDepth) :
    s.AdmitsLike depth d.decl.shape (.tagged tag v) v := by
  have hpasses : ∀ u, s.Resolves depth (.tagged tag v) u ↔ ∃ x, s.Passes d.decl.shape v x u := by
    intro u
    rw [resolves_tagged]
    simp only [ResolvesTagged, hrole]
    refine ⟨fun ⟨_, inner, hinner, d', x, hd', hx⟩ => ?_, fun ⟨x, hx⟩ => ?_⟩
    · obtain ⟨-, rfl⟩ := (resolves_key hfree hplain.distinctKeys).1 hinner
      obtain rfl := Option.some.inj (hd.symm.trans hd')
      exact ⟨x, hx⟩
    · exact ⟨by omega, v, (resolves_key hfree hplain.distinctKeys).2 ⟨hdepth, rfl⟩, d, x, hd, hx⟩
  refine ⟨fun x => ⟨fun ⟨u, hu, hx⟩ => ?_, fun hx => ?_⟩, fun u hu => ?_⟩
  · obtain ⟨y, hy⟩ := (hpasses u).1 hu
    obtain rfl := hx.unique (hy.admits_rest hplain).2
    exact (passes_iff_admits (.inr hplain.hasOtherKeys_eq_false)).1 ⟨u, hy⟩
  · obtain ⟨u, hu⟩ := (passes_iff_admits (.inr hplain.hasOtherKeys_eq_false)).2 hx
    exact ⟨u, (hpasses u).2 ⟨x, hu⟩, (hu.admits_rest hplain).2⟩
  · obtain ⟨y, hy⟩ := (hpasses u).1 hu
    exact (hy.admits_rest hplain).1.hasOtherKeys_eq_false

/-! ## Entries and maps that do -/

variable {wants : String → Option (String × Shape)}

theorem resolvesEntry_of_text {e : Tree × Tree} {key : String} (hdepth : depth ≤ s.settings.maxDepth) :
    s.ResolvesEntry depth (.text key, w) e ↔ e.1 = .text key ∧ s.Resolves depth w e.2 :=
  and_congr_left fun _ => (resolves_of_isScalar rfl).trans (and_iff_right hdepth)

/-- Where a value is wanted, the entry comes to the same if the value does. -/
theorem entryAdmitsLike_of_wants {key name : String} (hwants : wants key = some (name, shape))
    (hdepth : depth ≤ s.settings.maxDepth) (h : s.AdmitsLike depth shape w v) :
    s.EntryAdmitsLike depth wants (.text key, w) (.text key, v) := by
  refine ⟨fun g => ⟨fun ⟨u, hu, hg⟩ => ?_, fun hg => ?_⟩, fun u hu => ?_⟩
  · obtain ⟨k, u⟩ := u
    obtain ⟨rfl, hu⟩ := (resolvesEntry_of_text hdepth).1 hu
    cases hg with
    | wanted hkey hwants' hx =>
      obtain rfl := Tree.text.inj hkey
      obtain ⟨rfl, rfl⟩ := Prod.mk.inj (Option.some.inj (hwants.symm.trans hwants'))
      exact .wanted rfl hwants ((h.admits _).1 ⟨u, hu, hx⟩)
    | unwanted _ hkey hwants' =>
      obtain rfl := Tree.text.inj hkey
      exact nomatch hwants.symm.trans hwants'
  · cases hg with
    | wanted hkey hwants' hx =>
      obtain rfl := Tree.text.inj hkey
      obtain ⟨rfl, rfl⟩ := Prod.mk.inj (Option.some.inj (hwants.symm.trans hwants'))
      obtain ⟨u, hu, hx⟩ := (h.admits _).2 hx
      exact ⟨(.text key, u), (resolvesEntry_of_text hdepth).2 ⟨rfl, hu⟩, .wanted rfl hwants hx⟩
    | unwanted _ hkey hwants' =>
      obtain rfl := Tree.text.inj hkey
      exact nomatch hwants.symm.trans hwants'
  · obtain ⟨hkey, hu⟩ := (resolvesEntry_of_text hdepth).1 hu
    exact ⟨hkey ▸ rfl, h.textKeys _ hu⟩

/-- An entry without tags is left as it is, whether it is wanted or not. -/
theorem entryAdmitsLike_self {e : Tree × Tree} (hkey : e.1.isTextKey = true) (hfree : e.2.TagFree)
    (hplain : e.2.Plain) (hdepth : depth + e.2.depth ≤ s.settings.maxDepth) : s.EntryAdmitsLike depth wants e e := by
  obtain ⟨k, v⟩ := e
  obtain ⟨key, rfl⟩ := Tree.isTextKey_iff.1 hkey
  have hself : ∀ u, s.ResolvesEntry depth (.text key, v) u ↔ u = (.text key, v) := by
    intro u
    rw [resolvesEntry_of_text (by omega), resolves_key hfree hplain.distinctKeys, Prod.ext_iff]
    exact and_congr_right fun _ => and_iff_right hdepth
  refine ⟨fun g => ⟨fun ⟨u, hu, hg⟩ => ?_, fun hg => ⟨_, (hself _).2 rfl, hg⟩⟩, fun u hu => ?_⟩
  · exact (hself u).1 hu ▸ hg
  · exact (hself u).1 hu ▸ ⟨rfl, hplain.hasOtherKeys_eq_false⟩

theorem hasOtherKeys_of_entries {fs es us : List (Tree × Tree)}
    (h : List.Forall₂ (s.EntryAdmitsLike depth wants) fs es) (hus : List.Forall₂ (s.ResolvesEntry depth) fs us) :
    (Tree.map us).hasOtherKeys = false := by
  have htexts : ∀ u ∈ us, u.1.isTextKey = true ∧ u.2.hasOtherKeys = false := by
    intro u hu
    obtain ⟨f, hf, hfu⟩ := (forall₂_partners hus).2 u hu
    obtain ⟨e, -, hlike⟩ := (forall₂_partners h).1 f hf
    exact hlike.textKeys u hfu
  rw [← Bool.not_eq_true, Tree.hasOtherKeys_map]
  intro hother
  obtain ⟨u, hu, hkey | hvalue⟩ := hother
  · exact nomatch (htexts u hu).1.symm.trans hkey
  · exact nomatch (htexts u hu).2.symm.trans hvalue

/-- **A map comes to the same if each entry does.** -/
theorem admitsLike_map {reader : MapReader} {fs es : List (Tree × Tree)}
    (htakes : s.schema.Takes shape.base (.entries reader)) (horderly : (Tree.map fs).Orderly)
    (hdepth : depth ≤ s.settings.maxDepth)
    (h : List.Forall₂ (s.EntryAdmitsLike (depth + 1) reader.wants) fs es) :
    s.AdmitsLike depth shape (.map fs) (.map es) := by
  have hentries := forall₂_comp_iff (h.imp fun _ _ hentry => hentry.admits)
  refine ⟨fun x => ?_, fun u hu => ?_⟩
  · rw [Schema.admits_map_iff htakes]
    refine ⟨fun ⟨u, hu, hx⟩ => ?_, fun ⟨gs, hgs, hfinish⟩ => ?_⟩
    · obtain ⟨-, us, hus, rfl⟩ := (resolves_map_of_orderly horderly).1 hu
      obtain ⟨gs, hgs, hfinish⟩ := (Schema.admits_map_iff htakes).1 hx
      exact ⟨gs, (hentries gs).1 ⟨us, hus, hgs⟩, hfinish⟩
    · obtain ⟨us, hus, hgs⟩ := (hentries gs).2 hgs
      exact ⟨.map us, (resolves_map_of_orderly horderly).2 ⟨hdepth, us, hus, rfl⟩,
        (Schema.admits_map_iff htakes).2 ⟨gs, hgs, hfinish⟩⟩
  · obtain ⟨-, us, hus, rfl⟩ := (resolves_map_of_orderly horderly).1 hu
    exact hasOtherKeys_of_entries h hus

end Surroundings

end Provisioning
