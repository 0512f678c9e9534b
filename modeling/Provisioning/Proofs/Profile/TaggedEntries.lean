import Provisioning.Proofs.Decode.TaggedNodes
import Provisioning.Proofs.Profile.Instances
import Provisioning.Proofs.Profile.RoundTrip

/-!
# Catalogs whose entries name their type

An entry of a catalog may be tagged with either of the types of profiles, since both are read alike. Then it comes to
what it comes to without the tag, and so does the catalog.
-/

namespace Provisioning

namespace Catalog

/-- The second entry has the key of the first one, and its value as it is or below the tag of a type of profiles. -/
inductive TagsEntry : Tree × Tree → Tree × Tree → Prop
  | plain (e : Tree × Tree) : TagsEntry e e
  | tagged {decl : TypeDecl} (k v : Tree) :
      decl ∈ [Profile.decl, Profile.provisionerDecl] → TagsEntry (k, v) (k, .tagged decl.name v)

/-- The second entry is the first one, with any of the profiles in it tagged. -/
inductive TagsProfiles : Tree × Tree → Tree × Tree → Prop
  | other (e : Tree × Tree) : TagsProfiles e e
  | profiles {ps qs : List (Tree × Tree)} :
      List.Forall₂ TagsEntry ps qs → TagsProfiles (.text "profiles", .map ps) (.text "profiles", .map qs)

/-- The second document is the first one, with any of the profiles in it tagged. -/
inductive Tags : Tree → Tree → Prop
  | same (document : Tree) : Tags document document
  | entries {es fs : List (Tree × Tree)} : List.Forall₂ TagsProfiles es fs → Tags (.map es) (.map fs)

variable {e f : Tree × Tree} {es fs ps qs : List (Tree × Tree)} {c c' : Tree}

/-! ## Orderly still -/

/-- Maps with the same keys are orderly together, as long as the values are. -/
theorem orderly_map_of_forall₂ (h : List.Forall₂ (fun e f => f.1 = e.1 ∧ (e.2.Orderly → f.2.Orderly)) es fs)
    (horderly : (Tree.map es).Orderly) : (Tree.map fs).Orderly := by
  obtain ⟨hdiffer, hbelow⟩ := Tree.orderly_map.1 horderly
  have hkeys : List.Forall₂ (· = ·) (fs.map (·.1)) (es.map (·.1)) :=
    List.forall₂_map_left_iff.2 (List.forall₂_map_right_iff.2 (List.Forall₂.flip (h.imp fun _ _ hentry => hentry.1)))
  rw [List.forall₂_eq_eq_eq] at hkeys
  refine Tree.orderly_map.2 ⟨Surroundings.pairwise_of_keys_eq hkeys hdiffer, fun f hf => ?_⟩
  obtain ⟨e, he, hkey, hvalue⟩ := (forall₂_partners h).2 f hf
  exact ⟨hkey ▸ (hbelow e he).1, hvalue (hbelow e he).2⟩

theorem TagsEntry.orderly (h : TagsEntry e f) : f.1 = e.1 ∧ (e.2.Orderly → f.2.Orderly) := by
  cases h with
  | plain => exact ⟨rfl, id⟩
  | tagged => exact ⟨rfl, Tree.orderly_tagged.2⟩

theorem TagsProfiles.orderly (h : TagsProfiles e f) : f.1 = e.1 ∧ (e.2.Orderly → f.2.Orderly) := by
  cases h with
  | other => exact ⟨rfl, id⟩
  | profiles h => exact ⟨rfl, orderly_map_of_forall₂ (h.imp fun _ _ hentry => hentry.orderly)⟩

/-! ## The same catalog -/

/-- What can be said of an entry of a plain map without tags. -/
structure Untagged (es : List (Tree × Tree)) (e : Tree × Tree) : Prop where
  textKey : e.1.isTextKey = true
  tagFree : e.2.TagFree
  plain : e.2.Plain
  depth_lt : e.2.depth + 1 ≤ (Tree.map es).depth

theorem untagged_of_mem (hfree : (Tree.map es).TagFree) (hplain : (Tree.map es).Plain) :
    ∀ e ∈ es, Untagged es e := by
  obtain ⟨htexts, -, hvalues⟩ := Tree.plain_map.1 hplain
  have hlevels := Tree.entriesDepth_le_iff.1 (Nat.le_refl (Tree.entriesDepth es))
  exact fun e he => ⟨htexts e he, (Tree.tagFree_map.1 hfree e he).2, hvalues e he, (hlevels e he).2⟩

variable {others : Schema} {settings : Settings} {depth : Nat}

/-- A profile comes to the same below the tag of either of its types. -/
theorem TagsEntry.entryAdmitsLike (h : TagsEntry e f) (he : Untagged ps e)
    (hdepth : depth + (Tree.map ps).depth ≤ settings.maxDepth) :
    Surroundings.EntryAdmitsLike ⟨.withProfiles others, .builtin, settings⟩ depth
      (MapReader.values (.record "Profile")).wants f e := by
  have hlevel := he.depth_lt
  cases h with
  | plain => exact Surroundings.entryAdmitsLike_self he.textKey he.tagFree he.plain (Nat.le_trans (by omega) hdepth)
  | @tagged decl k v hdecl =>
    obtain ⟨key, rfl⟩ := Tree.isTextKey_iff.1 he.textKey
    obtain ⟨hresolve, hrole⟩ := Decoder.resolve_builtin decl (List.mem_append_left [Catalog.decl] hdecl)
    have hlevel : v.depth + 1 ≤ (Tree.map ps).depth := he.depth_lt
    have hlike : Surroundings.AdmitsLike ⟨.withProfiles others, .builtin, settings⟩ depth decl.shape
        (.tagged decl.name v) v :=
      Surroundings.admitsLike_tagged (s := ⟨.withProfiles others, .builtin, settings⟩) (d := .own decl) hrole hresolve
        he.tagFree he.plain (Nat.le_trans (by omega) hdepth)
    rw [Decoder.shape_of_mem hdecl] at hlike
    exact Surroundings.entryAdmitsLike_of_wants rfl (Nat.le_trans (by omega) hdepth) hlike

/-- A map of profiles comes to the same if some of them are tagged. -/
theorem admitsLike_profiles (h : List.Forall₂ TagsEntry ps qs) (hfree : (Tree.map ps).TagFree)
    (hplain : (Tree.map ps).Plain) (hdepth : depth + 1 + (Tree.map ps).depth ≤ settings.maxDepth) :
    Surroundings.AdmitsLike ⟨.withProfiles others, .builtin, settings⟩ depth (.dictionary (.record "Profile"))
      (.map qs) (.map ps) := by
  have horderly : (Tree.map qs).Orderly :=
    orderly_map_of_forall₂ (h.imp fun _ _ hentry => hentry.orderly) hplain.orderly
  have hroom : depth ≤ settings.maxDepth := by omega
  have hentries := (List.forall₂_and_left _ _).2 ⟨untagged_of_mem hfree hplain, h⟩
  refine Surroundings.admitsLike_map (.dictionary _) horderly hroom (List.Forall₂.flip ?_)
  exact hentries.imp fun e f hentry => hentry.2.entryAdmitsLike hentry.1 hdepth

theorem TagsProfiles.entryAdmitsLike (h : TagsProfiles e f) (he : Untagged es e)
    (hdepth : depth + (Tree.map es).depth ≤ settings.maxDepth) :
    Surroundings.EntryAdmitsLike ⟨.withProfiles others, .builtin, settings⟩ depth
      (MapReader.fields Catalog.fields).wants f e := by
  have hlevel := he.depth_lt
  cases h with
  | other => exact Surroundings.entryAdmitsLike_self he.textKey he.tagFree he.plain (Nat.le_trans (by omega) hdepth)
  | @profiles ps qs h =>
    have hlevel : (Tree.map ps).depth + 1 ≤ (Tree.map es).depth := he.depth_lt
    exact Surroundings.entryAdmitsLike_of_wants rfl (Nat.le_trans (by omega) hdepth)
      (admitsLike_profiles h he.tagFree he.plain (by omega))

/-- **A catalog comes to the same if some of its profiles are tagged.** -/
theorem Tags.admitsLike (h : Tags c c') (hfree : c.TagFree) (hplain : c.Plain)
    (hdepth : c.depth + 1 ≤ settings.maxDepth) :
    Surroundings.AdmitsLike ⟨.withProfiles others, .builtin, settings⟩ 0 Catalog.decl.shape c' c := by
  cases h with
  | same => exact Surroundings.admitsLike_self hfree hplain (Nat.le_trans (by omega) hdepth)
  | @entries es fs h =>
    have horderly : (Tree.map fs).Orderly :=
      orderly_map_of_forall₂ (h.imp fun _ _ hentry => hentry.orderly) hplain.orderly
    have hentries := (List.forall₂_and_left _ _).2 ⟨untagged_of_mem hfree hplain, h⟩
    refine Surroundings.admitsLike_map (.record _) horderly (Nat.zero_le _) (List.Forall₂.flip ?_)
    exact hentries.imp fun e f hentry => hentry.2.entryAdmitsLike hentry.1 (by omega)

theorem Tags.rootType?_eq_none (h : Tags c c') (hfree : c.TagFree) : c'.rootType? = none := by
  cases h with
  | same => exact Tree.rootType?_eq_none hfree.onlyVariantTags
  | entries => rfl

end Catalog

namespace Decoder

/-- **Tagging the profiles of a catalog changes nothing.** A catalog document has no tags, and its keys are texts. With
any of its profiles below the tag of either type of profiles it decodes to the catalog that it decodes to without, or to
none in both cases: strictly or not, in the context that knows these types, and as long as there is room for the
tags. -/
theorem decode_tagged_entries (others : Schema) (settings : Settings) (c c' : Tree) (hfree : c.TagFree)
    (htexts : c.TextKeys) (hkeys : c.DistinctKeys) (htags : Catalog.Tags c c')
    (hdepth : c.depth + 1 ≤ settings.maxDepth) :
    let decoder : Decoder := ⟨.type Catalog.decl, .builtin, settings⟩
    (∀ r, (decoder.decode (.withProfiles others) c').outcome = .ok r ↔
      (decoder.decode (.withProfiles others) c).outcome = .ok r) ∧
    ∀ r, (decoder.decode (.withProfiles others) c).outcome = .ok r →
      ∃ catalog : Catalog, r = .built catalog.toInstance := by
  intro decoder
  have hplain : c.Plain := ⟨hfree.onlyVariantTags, htexts, hkeys⟩
  have hlike : Surroundings.AdmitsLike ⟨.withProfiles others, .builtin, settings⟩ 0 Catalog.decl.shape c' c :=
    htags.admitsLike hfree hplain hdepth
  refine ⟨fun r => ?_, fun r hr => ?_⟩
  · rw [decode_type_eq_ok, decode_eq_ok_iff_admits hplain.onlyVariantTags hkeys (Nat.le_of_succ_le hdepth)
      (.inr hplain.hasOtherKeys_eq_false)]
    refine exists_congr fun x => and_congr_left fun _ => Iff.trans ?_ (hlike.admits x)
    rw [ResultsIn, htags.rootType?_eq_none hfree]
    refine exists_congr fun tree => ?_
    rw [exists_and_left]
    exact and_congr_right fun htree => Surroundings.passes_iff_admits (.inr (hlike.textKeys tree htree))
  · obtain ⟨x, hx, rfl⟩ := decode_type_eq_ok.1 hr
    obtain ⟨catalog, rfl⟩ := hx.makes.exists_catalog
    exact ⟨catalog, rfl⟩

/-- Two profiles, one of them with a key that no profile has. -/
def rackedCatalog : Tree := .map [(.text "profiles", .map [
  (.text "web", .map [(.text "label", .text "web")]),
  (.text "db", .map [(.text "rack", .number (.integer 7)), (.text "label", .text "db")])])]

/-- The same profiles, the one with the key below a tag. -/
def rackedCatalogTagged : Tree := .map [(.text "profiles", .map [
  (.text "web", .map [(.text "label", .text "web")]),
  (.text "db", .tagged "asset.ProvisionerProfile"
    (.map [(.text "rack", .number (.integer 7)), (.text "label", .text "db")]))])]

/-- Tolerantly, both documents are the catalog of the two profiles. -/
theorem decode_tagged_entries_rackedCatalog :
    let catalog : Catalog := .ofList [("web", { label := "web" }), ("db", { label := "db" })]
    let decoder : Decoder := ⟨.type Catalog.decl, .builtin, ⟨false, 4⟩⟩
    (decoder.decode .profiles rackedCatalog).outcome = .ok (.built catalog.toInstance) ∧
    (decoder.decode .profiles rackedCatalogTagged).outcome = .ok (.built catalog.toInstance) := by
  intro catalog decoder
  have hcatalog : (decoder.decode .profiles rackedCatalog).outcome = .ok (.built catalog.toInstance) := by rfl
  have htags : Catalog.Tags rackedCatalog rackedCatalogTagged :=
    .entries (.cons (.profiles (.cons (.plain _) (.cons
      (.tagged _ _ (List.mem_cons_of_mem Profile.decl (List.mem_singleton.2 rfl))) .nil))) .nil)
  exact ⟨hcatalog, ((decode_tagged_entries _ ⟨false, 4⟩ rackedCatalog rackedCatalogTagged (by decide) (by decide)
    (by decide) htags (by decide)).1 _).2 hcatalog⟩

end Decoder

end Provisioning
