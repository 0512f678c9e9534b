import Provisioning.Profile.Types
import Provisioning.Proofs.Decode.Tolerance
import Provisioning.Proofs.Schema.ReadsBack

/-!
# Profiles and catalogs are read back

Whatever a profile says, the document that it is written as decodes strictly to the same profile, and so does a
catalog, be the type named at the root or not. Texts are never looked into: one that looks like a tag or like null is a
text all the same.
-/

namespace Provisioning

/-! ## From a profile to its instance and back -/

theorem ClassList.ofList_names (l : ClassList) : ClassList.ofList l.names = l := by
  obtain ⟨names, hnodup⟩ := l
  have hself : firstOccurrences names = names :=
    firstOccurrences_eq_self (hnodup.imp fun hne => beq_eq_false_iff_ne.2 (Ne.symm hne))
  simp only [ClassList.ofList, hself]

/-- What each item is made of again, the list is made of again. -/
theorem mapM_map_of_forall {α β : Type} {write : α → β} {read : β → Option α} {xs : List α}
    (h : ∀ x ∈ xs, read (write x) = some x) : (xs.map write).mapM read = some xs := by
  induction xs with
  | nil => rfl
  | cons x xs ih =>
    obtain ⟨hfirst, hrest⟩ := List.forall_mem_cons.1 h
    rw [List.map_cons, List.mapM_cons, hfirst, ih hrest]
    rfl

namespace Profile

theorem optionalTextOf?_optionalText (s : Option String) : optionalTextOf? (optionalText s) = some s := by
  cases s <;> rfl

/-- **An instance says all that the profile says.** -/
theorem ofInstance?_toInstance (p : Profile) : ofInstance? p.toInstance = some p := by
  have hclasses : (p.allowedClasses.names.map Instance.text).mapM textOf? = some p.allowedClasses.names :=
    mapM_map_of_forall fun _ _ => rfl
  rw [toInstance, ofInstance?]
  simp only [optionalTextOf?_optionalText, hclasses, ClassList.ofList_names, Option.bind_eq_bind, Option.bind_some]

end Profile

namespace Catalog

theorem ofInstance?_toInstance (c : Catalog) : ofInstance? c.toInstance = some c := by
  have hprofiles : (c.profiles.entries.map fun e => (e.1, e.2.toInstance)).mapM
      (fun e => (Profile.ofInstance? e.2).bind fun p => some (e.1, p)) = some c.profiles.entries :=
    mapM_map_of_forall fun e _ => by rw [Profile.ofInstance?_toInstance, Option.bind_some]
  rw [toInstance, ofInstance?]
  simp only [Option.bind_eq_bind, hprofiles, Option.bind_some, ofList, Directory.ofList_entries]

end Catalog

/-! ## From an instance to its document and back -/

section Build

variable (others : Schema)

theorem readsBack_optionalText {σ : Schema} {levels : Nat} (s : Option String) :
    σ.ReadsBack (.optional .text) levels (Profile.optionalText s) := by
  cases s with
  | none => exact .absent
  | some s => exact .present (.text s) nofun

theorem readsBack_classes {σ : Schema} {levels : Nat} (l : ClassList) :
    σ.ReadsBack (.distinct .text) (levels + 1) (.list (l.names.map .text)) := by
  refine .distinct (fun x hx => ?_) ?_
  · obtain ⟨name, -, rfl⟩ := List.mem_map.1 hx
    exact .text name
  · rw [List.pairwise_map]
    refine l.nodup.imp fun {a b} hne => ?_
    have htexts : (Instance.text b == Instance.text a) = (b == a) := rfl
    rw [htexts, beq_eq_false_iff_ne]
    exact Ne.symm hne

theorem namesAreKeys_profile : Schema.NamesAreKeys Profile.fields := ⟨by decide, by decide⟩

theorem namesAreKeys_catalog : Schema.NamesAreKeys Catalog.fields := ⟨by decide, by decide⟩

theorem readsBack_profile (p : Profile) :
    (Schema.withProfiles others).ReadsBack (.record "Profile") 2 p.toInstance := by
  have hfields : (Schema.withProfiles others).fields "Profile" = Profile.fields := rfl
  refine .record (hfields ▸ namesAreKeys_profile) ?_
  rw [hfields]
  refine .cons ⟨⟨rfl, rfl⟩, .text _⟩ <| .cons ⟨⟨rfl, rfl⟩, .text _⟩ <| .cons ⟨⟨rfl, rfl⟩, .text _⟩ <|
    .cons ⟨⟨rfl, rfl⟩, .text _⟩ <| .cons ⟨⟨rfl, rfl⟩, .text _⟩ <|
    .cons ⟨⟨rfl, rfl⟩, readsBack_optionalText _⟩ <| .cons ⟨⟨rfl, rfl⟩, readsBack_optionalText _⟩ <|
    .cons ⟨⟨rfl, rfl⟩, readsBack_classes _⟩ <| .cons ⟨⟨rfl, rfl⟩, .flag _⟩ <| .cons ⟨⟨rfl, rfl⟩, .flag _⟩ <|
    .cons ⟨⟨rfl, rfl⟩, .flag _⟩ <| .cons ⟨⟨rfl, rfl⟩, .flag _⟩ .nil

theorem readsBack_catalog (c : Catalog) :
    (Schema.withProfiles others).ReadsBack (.record "ProfileCatalog") 4 c.toInstance := by
  have hfields : (Schema.withProfiles others).fields "ProfileCatalog" = Catalog.fields := rfl
  have hprofiles : (Schema.withProfiles others).ReadsBack (.dictionary (.record "Profile")) 3
      (.dictionary (c.profiles.entries.map fun e => (e.1, e.2.toInstance))) := by
    refine .dictionary (List.pairwise_map.2 c.profiles.sorted) fun e he => ?_
    obtain ⟨e, -, rfl⟩ := List.mem_map.1 he
    exact readsBack_profile others e.2
  refine .record (hfields ▸ namesAreKeys_catalog) ?_
  rw [hfields]
  exact .cons ⟨⟨rfl, rfl⟩, hprofiles⟩ .nil

end Build

namespace Decoder

variable {σ : Schema} {decl : TypeDecl} {context : Context} {limit levels : Nat} {x : Instance}

/-! ## Decoding what was written -/

theorem decode_toTree (h : σ.ReadsBack decl.shape levels x) (hlevels : levels ≤ limit) :
    (decode ⟨.type decl, context, ⟨true, limit⟩⟩ σ x.toTree).outcome = .ok (.built x) := by
  refine decode_strict_eq_ok_iff_yields.2 (yields_run_type.2 ⟨Nat.le_trans h.depth_le hlevels, ?_, x, ?_, rfl⟩)
  · exact Surroundings.resolvable_of_onlyVariantTags h.plain.onlyVariantTags
  · rw [h.plain.bare_eq_self]
    exact h.build

/-- The root may name its type, or another one that is written alike. -/
theorem decode_tagged_toTree (h : σ.ReadsBack decl.shape levels x) (hlevels : levels < limit) {d : Descriptor}
    (hrole : TagRole.ofTag d.name = .type d.name) (hresolve : context.resolve d.name = some d)
    (hshape : d.decl.shape = decl.shape) :
    (decode ⟨.type decl, context, ⟨true, limit⟩⟩ σ (.tagged d.name x.toTree)).outcome = .ok (.built x) := by
  have hroot : (Tree.tagged d.name x.toTree).rootType? = some (d.name, x.toTree) := by rw [Tree.rootType?, hrole]
  have hbuild : σ.build x.toTree.bare decl.shape = .ok ⟨x, []⟩ := by
    rw [h.plain.bare_eq_self]
    exact h.build
  refine decode_strict_eq_ok_iff_yields.2 (yields_run_type.2 ⟨?_, ?_, x, ?_, rfl⟩)
  -- the tag is one level more
  · exact Nat.le_trans (Nat.succ_le_succ h.depth_le) hlevels
  · refine (resolvable_of_rootType? hroot).2 ⟨?_, d, x, hresolve, hshape ▸ hbuild⟩
    exact Surroundings.resolvable_of_onlyVariantTags h.plain.onlyVariantTags
  · rw [bare_of_rootType? hroot]
    exact hbuild

theorem resolve_builtin :
    ∀ decl ∈ [Profile.decl, Profile.provisionerDecl, Catalog.decl],
      Context.builtin.resolve decl.name = some (.own decl) ∧ TagRole.ofTag decl.name = .type decl.name := by
  decide

/-- A profile is written alike for either of its two types. -/
theorem shape_of_mem {decl : TypeDecl} (h : decl ∈ [Profile.decl, Profile.provisionerDecl]) :
    decl.shape = .record "Profile" := by
  rcases List.mem_cons.1 h with rfl | h
  · rfl
  · rw [List.mem_singleton.1 h]
    rfl

/-- **Profiles and catalogs are read back.** In the context they are at home in, the document that a profile is written
as decodes strictly to the same profile, as either of the two types of profiles, and so it does below a root tag that
names one of them. So does the document that a catalog is written as. -/
theorem decode_written (others : Schema) :
    (∀ p : Profile, Profile.ofInstance? p.toInstance = some p ∧
      ∀ decl ∈ [Profile.decl, Profile.provisionerDecl],
        let decoder : Decoder := ⟨.type decl, .builtin, .rejecting⟩
        (decoder.decode (.withProfiles others) p.toInstance.toTree).outcome = .ok (.built p.toInstance) ∧
        ∀ named ∈ [Profile.decl, Profile.provisionerDecl],
          (decoder.decode (.withProfiles others) (.tagged named.name p.toInstance.toTree)).outcome =
            .ok (.built p.toInstance)) ∧
    ∀ c : Catalog, Catalog.ofInstance? c.toInstance = some c ∧
      let decoder : Decoder := ⟨.type Catalog.decl, .builtin, .rejecting⟩
      (decoder.decode (.withProfiles others) c.toInstance.toTree).outcome = .ok (.built c.toInstance) ∧
      (decoder.decode (.withProfiles others) (.tagged Catalog.decl.name c.toInstance.toTree)).outcome =
        .ok (.built c.toInstance) := by
  refine ⟨fun p => ⟨p.ofInstance?_toInstance, fun decl hdecl => ?_⟩, fun c => ⟨c.ofInstance?_toInstance, ?_⟩⟩
  · have hback : (Schema.withProfiles others).ReadsBack decl.shape 2 p.toInstance :=
      shape_of_mem hdecl ▸ readsBack_profile others p
    refine ⟨decode_toTree hback (by decide), fun named hnamed => ?_⟩
    have hmem : named ∈ [Profile.decl, Profile.provisionerDecl, Catalog.decl] := List.mem_append_left _ hnamed
    obtain ⟨hresolve, hrole⟩ := resolve_builtin named hmem
    exact decode_tagged_toTree (d := .own named) hback (by decide) hrole hresolve
      ((shape_of_mem hnamed).trans (shape_of_mem hdecl).symm)
  · have hback : (Schema.withProfiles others).ReadsBack Catalog.decl.shape 4 c.toInstance := readsBack_catalog others c
    obtain ⟨hresolve, hrole⟩ := resolve_builtin Catalog.decl (by decide)
    exact ⟨decode_toTree hback (by decide), decode_tagged_toTree (d := .own Catalog.decl) hback (by decide) hrole
      hresolve rfl⟩

end Decoder

end Provisioning
