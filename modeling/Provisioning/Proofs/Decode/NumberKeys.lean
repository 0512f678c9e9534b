import Provisioning.Proofs.Decode.Tolerance

/-!
# A number as a key

An entry whose key is a number never fits a map, so it makes the first attempt at a map that is read fail, and
the second attempt does without all keys that are not text. That is harmless as long as no key has a tag:
the builder takes a tagged text for a field, the second attempt drops it.
-/

namespace Provisioning

namespace Tree

/-- The second map has one entry more, a scalar under an integer. -/
def AddsNumberKey (es fs : List (Tree × Tree)) : Prop :=
  ∃ front rest n v, v.isScalar = true ∧ es = front ++ rest ∧
    fs = front ++ (.number (.integer n), v) :: rest

variable {t u : Tree}

/-- Wherever the entry is added, the document has a key that is not text. -/
theorem Edit.hasOtherKeys (h : Edit AddsNumberKey t u) : u.hasOtherKeys = true := by
  induction h with
  | map hadds =>
    obtain ⟨front, rest, n, v, -, -, rfl⟩ := hadds
    exact hasOtherKeys_map.2 ⟨_, List.mem_append_right _ List.mem_cons_self, .inl rfl⟩
  | item front rest _ ih => exact hasOtherKeys_list.2 ⟨_, List.mem_append_right _ List.mem_cons_self, ih⟩
  | key front rest v hk _ =>
    exact hasOtherKeys_map.2 ⟨_, List.mem_append_right _ List.mem_cons_self, .inl hk.isTextKey_eq_false.2⟩
  | value front rest k _ ih =>
    exact hasOtherKeys_map.2 ⟨_, List.mem_append_right _ List.mem_cons_self, .inr ih⟩
  | tagged tag _ ih => exact ih

/-- And without such keys nothing is left of it. -/
theorem Edit.withTextKeys_eq (h : Edit AddsNumberKey t u) : u.withTextKeys = t.withTextKeys := by
  induction h with
  | map hadds =>
    obtain ⟨front, rest, n, v, -, rfl, rfl⟩ := hadds
    rw [withTextKeys, withTextKeys, entriesWithTextKeys_eq, entriesWithTextKeys_eq, List.filterMap_append,
      List.filterMap_append, List.filterMap_cons]
    rfl
  | item front rest _ ih =>
    rw [withTextKeys, withTextKeys, itemsWithTextKeys_eq, itemsWithTextKeys_eq, List.map_append,
      List.map_append, List.map_cons, List.map_cons, ih]
  | key front rest v hk _ =>
    rw [withTextKeys, withTextKeys, entriesWithTextKeys_eq, entriesWithTextKeys_eq, List.filterMap_append,
      List.filterMap_append, List.filterMap_cons, List.filterMap_cons, entryWithTextKey, entryWithTextKey,
      hk.isTextKey_eq_false.1, hk.isTextKey_eq_false.2]
    rfl
  | value front rest k _ ih =>
    rw [withTextKeys, withTextKeys, entriesWithTextKeys_eq, entriesWithTextKeys_eq, List.filterMap_append,
      List.filterMap_append, List.filterMap_cons, List.filterMap_cons, entryWithTextKey, entryWithTextKey, ih]
  | tagged tag _ ih => rw [withTextKeys, withTextKeys, ih]

/-- The entry has no tag. -/
theorem Edit.onlyVariantTags (h : Edit AddsNumberKey t u) : t.OnlyVariantTags → u.OnlyVariantTags := by
  induction h with
  | map hadds =>
    obtain ⟨front, rest, n, v, hv, rfl, rfl⟩ := hadds
    intro htags
    rw [onlyVariantTags_map, List.forall_mem_append] at htags ⊢
    rw [List.forall_mem_cons]
    exact ⟨htags.1, ⟨(plain_of_isScalar rfl).onlyVariantTags, (plain_of_isScalar hv).onlyVariantTags⟩, htags.2⟩
  | item front rest _ ih =>
    intro htags
    rw [onlyVariantTags_list, List.forall_mem_append, List.forall_mem_cons] at htags ⊢
    exact ⟨htags.1, ih htags.2.1, htags.2.2⟩
  | key front rest v _ ih =>
    intro htags
    rw [onlyVariantTags_map, List.forall_mem_append, List.forall_mem_cons] at htags ⊢
    exact ⟨htags.1, ⟨ih htags.2.1.1, htags.2.1.2⟩, htags.2.2⟩
  | value front rest k _ ih =>
    intro htags
    rw [onlyVariantTags_map, List.forall_mem_append, List.forall_mem_cons] at htags ⊢
    exact ⟨htags.1, ⟨htags.2.1.1, ih htags.2.1.2⟩, htags.2.2⟩
  | tagged tag _ ih =>
    intro htags
    rw [onlyVariantTags_tagged] at htags ⊢
    exact ⟨htags.1, ih htags.2⟩

theorem entriesDepth_le_of_addsNumberKey {es fs : List (Tree × Tree)} (h : AddsNumberKey es fs) :
    entriesDepth es ≤ entriesDepth fs := by
  obtain ⟨front, rest, n, v, -, rfl, rfl⟩ := h
  rw [entriesDepth_append, entriesDepth_append, entriesDepth]
  omega

end Tree

namespace Schema

variable {σ : Schema}

/-- What reads with the added entry reads alike without it: the entry stands where nothing is read. -/
theorem ReadsLike.of_addsNumberKey {t u : Tree} (h : Tree.Edit Tree.AddsNumberKey t u) :
    σ.ReadsLike u t := by
  have hback : Tree.Edit (fun fs es => Tree.AddsNumberKey es fs) u t := h.reverse id
  refine of_edit (fun fs es hadds => ?_) hback
  obtain ⟨front, rest, n, v, -, -, rfl⟩ := hadds
  exact of_unreadable (List.mem_append_right _ List.mem_cons_self) nofun

/-- If no text key has a tag, the builder and the second attempt agree about which keys are texts. -/
theorem ReadsLike.withTextKeys {t : Tree} (h : t.UntaggedTextKeys) : σ.ReadsLike t t.withTextKeys := by
  induction t using Tree.induct with
  | null | flag | number | text => exact .refl _
  | list ts ih =>
    rw [Tree.withTextKeys, Tree.itemsWithTextKeys_eq]
    refine .list (List.forall₂_map_right_iff.2 (List.forall₂_same.2 fun t ht => ?_))
    exact ih t ht (Tree.untaggedTextKeys_list.1 h t ht)
  | map es ih =>
    obtain ⟨hkeys, hbelow⟩ := Tree.untaggedTextKeys_map.1 h
    rw [Tree.withTextKeys, Tree.entriesWithTextKeys_eq]
    by_cases hread : ∃ e ∈ es, ∀ s, e.1.untagged ≠ .text s
    · obtain ⟨e, he, hkey⟩ := hread
      exact .of_unreadable he hkey
    · have htexts : ∀ e ∈ es, e.1.isTextKey = true := by
        intro e he
        by_cases hkey : ∃ s, e.1.untagged = .text s
        · obtain ⟨s, hs⟩ := hkey
          exact hkeys e he s hs
        · exact absurd ⟨e, he, fun s hs => hkey ⟨s, hs⟩⟩ hread
      have hall : es.filterMap Tree.entryWithTextKey = es.map fun e => (e.1, e.2.withTextKeys) := by
        rw [← List.filterMap_eq_map]
        exact List.filterMap_congr fun e he => if_pos (htexts e he)
      rw [hall]
      refine .map (List.forall₂_map_right_iff.2 (List.forall₂_same.2 fun e he => ?_))
      exact ⟨rfl, (ih e he).2 (hbelow e he).2⟩
  | tagged tag content ih => exact .tagged tag (ih (Tree.untaggedTextKeys_tagged.1 h))

end Schema

namespace Decoder

/-- A tolerant decode of a document without type tags and core tags succeeds at the first attempt, or at the
second if there is one. -/
theorem decode_tolerant_eq_ok_iff {σ : Schema} {decl : TypeDecl} {context : Context} {limit : Nat}
    {document : Tree} (htags : document.OnlyVariantTags) (hkeys : document.DistinctKeys)
    (hdepth : document.depth ≤ limit) {x : Instance} :
    (decode ⟨.type decl, context, ⟨false, limit⟩⟩ σ document).outcome = .ok (.built x) ↔
      (∃ b, σ.build document decl.shape = .ok b ∧ b.value = x) ∨
      (∀ b, σ.build document decl.shape ≠ .ok b) ∧ document.hasOtherKeys = true ∧
        ∃ b, σ.build document.withTextKeys decl.shape = .ok b ∧ b.value = x := by
  rw [(decode_eq_buildChecked htags hkeys hdepth).1]
  cases hb : Surroundings.build ⟨σ, context, ⟨false, limit⟩⟩ decl document with
  | ok b =>
    have hbuild := Surroundings.build_eq_ok.1 hb
    rw [(Surroundings.buildChecked_of_ok rfl hb).1]
    refine ⟨fun h => ?_, fun h => ?_⟩
    · obtain ⟨result, hresult, hx⟩ := h
      obtain rfl := Except.ok.inj hresult
      exact .inl ⟨b, hbuild, (Decoded.built.inj hx).symm⟩
    · rcases h with ⟨b', hb', rfl⟩ | ⟨hnone, -⟩
      · rw [hbuild] at hb'
        obtain rfl := Except.ok.inj hb'
        exact ⟨_, rfl, rfl⟩
      · exact absurd hbuild (hnone b)
  | error failure =>
    have hnone : ∀ b, σ.build document decl.shape ≠ .ok b := by
      intro b hbuild
      have hok := (@Surroundings.build_eq_ok ⟨σ, context, ⟨false, limit⟩⟩ _ _ _).2 hbuild
      rw [hb] at hok
      cases hok
    refine ⟨fun h => ?_, fun h => ?_⟩
    · obtain ⟨result, hresult, hx⟩ := h
      obtain ⟨hother, b, hbuild, rfl⟩ := (Surroundings.buildChecked_of_error rfl hb).1 hresult
      exact .inr ⟨hnone, hother, b, Surroundings.build_eq_ok.1 hbuild, (Decoded.built.inj hx).symm⟩
    · rcases h with ⟨b, hbuild, -⟩ | ⟨-, hother, b, hbuild, rfl⟩
      · exact absurd hbuild (hnone b)
      · exact ⟨_, (Surroundings.buildChecked_of_error rfl hb).2
          ⟨hother, b, Surroundings.build_eq_ok.2 hbuild, rfl⟩, rfl⟩

/-- **When a number as a key disturbs nothing.** A document without type tags and core tags decodes tolerantly,
and an entry whose key is an integer is added to one of its maps. Then the result stays exactly if the
document builds with the entry, which takes a place where nothing is read, or gives that result without
any key that is not text. It always stays if no text key of the document has a tag. -/
theorem decode_with_number_key_iff (σ : Schema) (decl : TypeDecl) (context : Context) (limit : Nat)
    (document document' : Tree) (x : Instance) (htags : document.OnlyVariantTags)
    (hkeys : document.DistinctKeys) (hadds : Tree.Edit Tree.AddsNumberKey document document')
    (hkeys' : document'.DistinctKeys) (hdepth : document'.depth ≤ limit)
    (h : (decode ⟨.type decl, context, ⟨false, limit⟩⟩ σ document).outcome = .ok (.built x)) :
    ((decode ⟨.type decl, context, ⟨false, limit⟩⟩ σ document').outcome = .ok (.built x) ↔
      (∃ b, σ.build document' decl.shape = .ok b) ∨
        ∃ b, σ.build document.withTextKeys decl.shape = .ok b ∧ b.value = x) ∧
    (document.UntaggedTextKeys →
      (decode ⟨.type decl, context, ⟨false, limit⟩⟩ σ document').outcome = .ok (.built x)) := by
  have hdepth₀ : document.depth ≤ limit :=
    Nat.le_trans (hadds.depth_le fun _ _ => Tree.entriesDepth_le_of_addsNumberKey) hdepth
  have htags' : document'.OnlyVariantTags := hadds.onlyVariantTags htags
  rw [decode_tolerant_eq_ok_iff htags hkeys hdepth₀] at h
  have hiff : (decode ⟨.type decl, context, ⟨false, limit⟩⟩ σ document').outcome = .ok (.built x) ↔
      (∃ b, σ.build document' decl.shape = .ok b) ∨
        ∃ b, σ.build document.withTextKeys decl.shape = .ok b ∧ b.value = x := by
    rw [decode_tolerant_eq_ok_iff htags' hkeys' hdepth, hadds.withTextKeys_eq]
    refine ⟨fun h' => ?_, fun h' => ?_⟩
    · rcases h' with ⟨b, hb, -⟩ | ⟨-, -, hb⟩
      · exact .inl ⟨b, hb⟩
      · exact .inr hb
    · by_cases hfirst : ∃ b, σ.build document' decl.shape = .ok b
      · -- the first attempt builds what the document gave before
        obtain ⟨b', hb'⟩ := hfirst
        obtain ⟨b, hb, hkeeps⟩ := (Schema.ReadsLike.of_addsNumberKey hadds).build hb'
        rcases h with ⟨c, hc, rfl⟩ | ⟨hnone, -⟩
        · rw [hb] at hc
          obtain rfl := Except.ok.inj hc
          exact .inl ⟨b', hb', hkeeps.value.symm⟩
        · exact absurd hb (hnone b)
      · refine .inr ⟨fun b hb => hfirst ⟨b, hb⟩, hadds.hasOtherKeys, ?_⟩
        rcases h' with hb | hb
        · exact absurd hb hfirst
        · exact hb
  refine ⟨hiff, fun huntagged => hiff.2 (.inr ?_)⟩
  rcases h with ⟨b, hb, rfl⟩ | ⟨-, -, hb⟩
  · obtain ⟨b', hb', hkeeps⟩ := (Schema.ReadsLike.withTextKeys huntagged).build hb
    exact ⟨b', hb', hkeeps.value⟩
  · exact hb

/-- A profile that says two things. -/
def webProfile : Tree := .map [(.text "label", .text "web"), (.text "contact", .text "ops")]

/-- The same profile with junk between them. -/
def webProfileWithJunk : Tree := .map [
  (.text "label", .text "web"), (.number (.integer 0), .text "junk"), (.text "contact", .text "ops")]

/-- The junk does not disturb the profile. -/
theorem decode_with_number_key_webProfile :
    (decode ⟨.type Profile.provisionerDecl, .nothing, ⟨false, 8⟩⟩ Samples.schema webProfile).outcome =
      .ok (.built (Profile.toInstance { label := "web", contact := some "ops" })) ∧
    (decode ⟨.type Profile.provisionerDecl, .nothing, ⟨false, 8⟩⟩ Samples.schema webProfileWithJunk).outcome =
      .ok (.built (Profile.toInstance { label := "web", contact := some "ops" })) := by
  have hadds : Tree.Edit Tree.AddsNumberKey webProfile webProfileWithJunk :=
    .map ⟨[(.text "label", .text "web")], [(.text "contact", .text "ops")], 0, .text "junk", rfl, rfl, rfl⟩
  have huntagged : webProfile.UntaggedTextKeys := by
    rw [webProfile, Tree.untaggedTextKeys_map]
    simp [Tree.isTextKey, Tree.UntaggedTextKeys, Tree.nodes]
  refine ⟨rfl, ?_⟩
  exact (decode_with_number_key_iff Samples.schema Profile.provisionerDecl .nothing 8 webProfile
    webProfileWithJunk _ (by decide) (by decide) hadds (by decide) (by decide) rfl).2 huntagged

/-- A profile whose only key has a tag. -/
def taggedLabel : Tree := .map [(.tagged "k" (.text "label"), .text "web")]

/-- The same profile with junk behind it. -/
def taggedLabelWithJunk : Tree := .map [
  (.tagged "k" (.text "label"), .text "web"), (.number (.integer 0), .text "junk")]

/-- Here the junk takes the label with it: the tolerant decode gives another profile, and no error. -/
theorem number_key_loses_tagged_label :
    taggedLabel.OnlyVariantTags ∧ taggedLabel.DistinctKeys ∧
    Tree.Edit Tree.AddsNumberKey taggedLabel taggedLabelWithJunk ∧
    taggedLabelWithJunk.DistinctKeys ∧ taggedLabelWithJunk.depth ≤ 8 ∧
    (decode ⟨.type Profile.provisionerDecl, .nothing, ⟨false, 8⟩⟩ Samples.schema taggedLabel).outcome =
      .ok (.built (Profile.toInstance { label := "web" })) ∧
    (decode ⟨.type Profile.provisionerDecl, .nothing, ⟨false, 8⟩⟩ Samples.schema taggedLabelWithJunk).outcome =
      .ok (.built (Profile.toInstance {})) ∧
    Profile.toInstance { label := "web" } ≠ Profile.toInstance {} := by
  have hadds : Tree.Edit Tree.AddsNumberKey taggedLabel taggedLabelWithJunk :=
    .map ⟨_, [], 0, .text "junk", rfl, (List.append_nil _).symm, rfl⟩
  refine ⟨by decide, by decide, hadds, by decide, by decide, rfl, rfl, fun h => ?_⟩
  simp [Profile.toInstance] at h

end Decoder

end Provisioning
