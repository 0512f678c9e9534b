import Mathlib.Data.Set.List
import Provisioning.Proofs.Decode.Results
import Provisioning.Proofs.Profile.RoundTrip
import Provisioning.Proofs.Schema.Makes

/-!
# Every instance of a document type stands for something

What a document is decoded into as a type of profiles is the instance of some profile, and what it is decoded into as
the type of catalogs is the instance of some catalog. So nothing that a loader is given by a decoder is beyond it.
-/

namespace Provisioning

theorem firstOccurrences_map {α β : Type} [BEq α] [BEq β] {f : α → β} (h : ∀ x y, (f y == f x) = (y == x))
    (xs : List α) : firstOccurrences (xs.map f) = (firstOccurrences xs).map f := by
  induction xs with
  | nil => rfl
  | cons x xs ih =>
    have hsame : ((fun y => !(y == f x)) ∘ f) = fun y => !(y == x) := funext fun y => congrArg _ (h x y)
    rw [List.map_cons, firstOccurrences, firstOccurrences, ih, List.filter_map, hsame, List.map_cons]

/-- A list of images is the image of a list. -/
theorem exists_map_eq_of_forall {α β : Type} {f : α → β} {ys : List β} (h : ∀ y ∈ ys, ∃ x, f x = y) :
    ∃ xs : List α, xs.map f = ys := by
  have hrange : ys ∈ Set.range (List.map f) := by
    rw [Set.range_list_map]
    exact h
  exact hrange

namespace Schema

variable {σ : Schema} {name : String} {aliases : List String} {fallback : Option Instance} {elided : Bool}
  {g : String × Instance}

/-! ## What a field of each sort holds -/

theorem MakesField.text (h : σ.MakesField ⟨name, aliases, .text, fallback, elided⟩ g) :
    ∃ s, g = (name, .text s) := by
  obtain ⟨hname, hvalue⟩ := h
  obtain ⟨s, hs⟩ := hvalue.text
  exact ⟨s, Prod.ext hname hs⟩

theorem MakesField.flag (h : σ.MakesField ⟨name, aliases, .flag, fallback, elided⟩ g) :
    ∃ b, g = (name, .flag b) := by
  obtain ⟨hname, hvalue⟩ := h
  obtain ⟨b, hb⟩ := hvalue.flag
  exact ⟨b, Prod.ext hname hb⟩

theorem MakesField.optionalText (h : σ.MakesField ⟨name, aliases, .optional .text, fallback, elided⟩ g) :
    ∃ s, g = (name, Profile.optionalText s) := by
  obtain ⟨hname, hvalue⟩ := h
  obtain habsent | hpresent := hvalue.optional
  · exact ⟨none, Prod.ext hname habsent⟩
  · obtain ⟨s, hs⟩ := hpresent.text
    exact ⟨some s, Prod.ext hname hs⟩

theorem MakesField.classes (h : σ.MakesField ⟨name, aliases, .distinct .text, fallback, elided⟩ g) :
    ∃ l : ClassList, g = (name, .list (l.names.map .text)) := by
  obtain ⟨hname, hvalue⟩ := h
  obtain ⟨xs, hxs, htexts⟩ := hvalue.distinct
  obtain ⟨names, rfl⟩ : ∃ names : List String, names.map .text = xs :=
    exists_map_eq_of_forall fun x hx => (htexts x hx).text.imp fun _ h => h.symm
  have hsame : ∀ a b : String, (Instance.text b == Instance.text a) = (b == a) := fun _ _ => rfl
  rw [firstOccurrences_map hsame] at hxs
  exact ⟨.ofList names, Prod.ext hname hxs⟩

/-! ## Profiles and catalogs -/

section WithProfiles

variable {others : Schema} {x : Instance}

theorem fallbacksFit_profile : (withProfiles others).FallbacksFit Profile.fields := by
  have htext : (withProfiles others).ReadsBack .text 0 (.text "") := .text ""
  have hflag : ∀ b, (withProfiles others).ReadsBack .flag 0 (.flag b) := fun b => .flag b
  have hoptional : (withProfiles others).ReadsBack (.optional .text) 0 .absent := .absent
  have hclasses : (withProfiles others).ReadsBack (.distinct .text) 1 (.list []) := readsBack_classes .unrestricted
  simp only [FallbacksFit, Profile.fields, List.forall_mem_cons, Option.some.injEq, forall_eq']
  exact ⟨htext.makes, htext.makes, htext.makes, htext.makes, htext.makes, hoptional.makes, hoptional.makes,
    hclasses.makes, (hflag _).makes, (hflag _).makes, (hflag _).makes, (hflag _).makes, nofun⟩

theorem Makes.exists_profile (h : (withProfiles others).Makes (.record "Profile") x) :
    ∃ p : Profile, p.toInstance = x := by
  have hfields : (withProfiles others).fields "Profile" = Profile.fields := rfl
  obtain ⟨values, rfl, hvalues⟩ := h.record (hfields ▸ namesAreKeys_profile) (hfields ▸ fallbacksFit_profile)
    (by rw [hfields]; decide)
  rw [hfields, Profile.fields] at hvalues
  simp only [List.forall₂_cons_left_iff, List.forall₂_nil_left_iff] at hvalues
  obtain ⟨_, _, hlabel, ⟨_, _, hprefix, ⟨_, _, hprimary, ⟨_, _, hsecondary, ⟨_, _, hpool, ⟨_, _, hcontact,
    ⟨_, _, hnotes, ⟨_, _, hclasses, ⟨_, _, hsuffix, ⟨_, _, hneedsPrimary, ⟨_, _, hneedsSecondary,
    ⟨_, _, hneedsPool, rfl, rfl⟩, rfl⟩, rfl⟩, rfl⟩, rfl⟩, rfl⟩, rfl⟩, rfl⟩, rfl⟩, rfl⟩, rfl⟩, rfl⟩ := hvalues
  obtain ⟨label, rfl⟩ := hlabel.text
  obtain ⟨assetPrefix, rfl⟩ := hprefix.text
  obtain ⟨primaryRole, rfl⟩ := hprimary.text
  obtain ⟨secondaryRole, rfl⟩ := hsecondary.text
  obtain ⟨pool, rfl⟩ := hpool.text
  obtain ⟨contact, rfl⟩ := hcontact.optionalText
  obtain ⟨contactNotes, rfl⟩ := hnotes.optionalText
  obtain ⟨allowedClasses, rfl⟩ := hclasses.classes
  obtain ⟨allowSuffix, rfl⟩ := hsuffix.flag
  obtain ⟨requiresPrimaryRole, rfl⟩ := hneedsPrimary.flag
  obtain ⟨requiresSecondaryRole, rfl⟩ := hneedsSecondary.flag
  obtain ⟨requiresPool, rfl⟩ := hneedsPool.flag
  exact ⟨⟨label, assetPrefix, primaryRole, secondaryRole, pool, contact, contactNotes, allowedClasses, allowSuffix,
    requiresPrimaryRole, requiresSecondaryRole, requiresPool⟩, rfl⟩

theorem fallbacksFit_catalog : (withProfiles others).FallbacksFit Catalog.fields := by
  have hprofiles : (withProfiles others).ReadsBack (.dictionary (.record "Profile")) 1 (.dictionary []) :=
    .dictionary .nil nofun
  simp only [FallbacksFit, Catalog.fields, List.forall_mem_cons, Option.some.injEq, forall_eq']
  exact ⟨hprofiles.makes, nofun⟩

theorem Makes.exists_catalog (h : (withProfiles others).Makes (.record "ProfileCatalog") x) :
    ∃ c : Catalog, c.toInstance = x := by
  have hfields : (withProfiles others).fields "ProfileCatalog" = Catalog.fields := rfl
  obtain ⟨values, rfl, hvalues⟩ := h.record (hfields ▸ namesAreKeys_catalog) (hfields ▸ fallbacksFit_catalog)
    (by rw [hfields]; decide)
  rw [hfields, Catalog.fields] at hvalues
  simp only [List.forall₂_cons_left_iff, List.forall₂_nil_left_iff] at hvalues
  obtain ⟨g, _, ⟨hname, hprofiles⟩, rfl, rfl⟩ := hvalues
  obtain ⟨es, hes, hsorted, hmakes⟩ := hprofiles.dictionary
  obtain ⟨profiles, rfl⟩ : ∃ profiles : List (String × Profile), profiles.map (fun e => (e.1, e.2.toInstance)) = es :=
    exists_map_eq_of_forall fun e he => (hmakes e he).exists_profile.elim fun p hp => ⟨(e.1, p), Prod.ext rfl hp⟩
  obtain rfl : g = ("profiles", .dictionary (profiles.map fun e => (e.1, e.2.toInstance))) := Prod.ext hname hes
  rw [List.pairwise_map] at hsorted
  exact ⟨⟨profiles, hsorted⟩, rfl⟩

end WithProfiles

end Schema

/-! ## Results of decoding -/

theorem Surroundings.Passes.makes {s : Surroundings} {shape : Shape} {node rest : Tree} {x : Instance}
    (h : s.Passes shape node x rest) : s.schema.Makes shape x := by
  obtain ⟨t, b, hbuild, hvalue, -⟩ := h.exists_build
  exact ⟨t, b, hbuild, hvalue⟩

namespace Decoder

/-- Whatever type a document names, what it is decoded into was built as the root type. -/
theorem ResultsIn.makes {s : Surroundings} {decl : TypeDecl} {document : Tree} {x : Instance}
    (h : ResultsIn s decl document x) : s.schema.Makes decl.shape x := by
  unfold ResultsIn at h
  split at h
  · obtain ⟨tree, rest, -, hpasses⟩ := h
    exact hpasses.makes
  · obtain ⟨d, inner, y, rest, -, -, hpasses, hrest⟩ := h
    split at hrest
    · rename_i hof
      rw [hrest, ← Descriptor.isOf_iff.1 hof]
      exact hpasses.makes
    · obtain ⟨rest', hpasses'⟩ := hrest
      exact hpasses'.makes

end Decoder

end Provisioning
